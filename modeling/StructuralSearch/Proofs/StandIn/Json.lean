import Mathlib.Data.List.Forall2
import StructuralSearch.StandIn.Json.Quoted
import StructuralSearch.StandIn.Json.Token
import StructuralSearch.Proofs.Text.Lines

/-!
# Reading what was written

A text that is written as JSON is read as itself, whatever characters it has, and a count as its
number. So an object is read as its keys with what is read of the values.
-/
namespace StructuralSearch.StandIn.Json

/-! ## Characters -/

/-- How a character may be written so that it is read as itself. -/
inductive WrittenAs (c : Char) : List Char → Prop
  | letter (l : Char) (hescape : shortEscape? l = some c) (hl : l ≠ '\n') : WrittenAs c ['\\', l]
  | code (h : c.toNat < 0x20) :
    WrittenAs c ['\\', 'u', '0', '0', Nat.digitChar (c.toNat / 16), Nat.digitChar (c.toNat % 16)]
  | plain (hquote : c ≠ '"') (hbackslash : c ≠ '\\') (h : ¬c.toNat < 0x20) : WrittenAs c [c]

theorem toList_fourDigits_of_lt : ∀ n < 0x20,
    (fourDigits n).toList = ['0', '0', Nat.digitChar (n / 16), Nat.digitChar (n % 16)] := by
  decide +kernel

theorem writtenAs_quotedChar (c : Char) : WrittenAs c (quotedChar c).toList := by
  unfold quotedChar
  split
  · subst c
    exact .letter '"' rfl (by decide)
  split
  · subst c
    exact .letter '\\' rfl (by decide)
  split
  · subst c
    exact .letter 'b' rfl (by decide)
  split
  · subst c
    exact .letter 'f' rfl (by decide)
  split
  · subst c
    exact .letter 'n' rfl (by decide)
  split
  · subst c
    exact .letter 'r' rfl (by decide)
  split
  · subst c
    exact .letter 't' rfl (by decide)
  split
  · rename_i hcontrol
    rw [String.toList_append, toList_fourDigits_of_lt c.toNat hcontrol]
    exact .code hcontrol
  · rename_i hquote hbackslash _ _ _ _ _ hcontrol
    rw [Char.toString_eq_singleton, String.toList_singleton]
    exact .plain hquote hbackslash hcontrol

theorem hexDigit?_digitChar : ∀ n < 16, hexDigit? (Nat.digitChar n) = some n := by
  decide

theorem hexUnit?_of_lt {n : Nat} (h : n < 0x20) :
    hexUnit? '0' '0' (Nat.digitChar (n / 16)) (Nat.digitChar (n % 16)) = some n := by
  have hzero : hexDigit? '0' = some 0 := rfl
  have hhigh := hexDigit?_digitChar (n / 16) (by omega)
  have hlow := hexDigit?_digitChar (n % 16) (by omega)
  rw [hexUnit?, hzero, hhigh, hlow]
  exact congrArg some (by omega)

theorem WrittenAs.isRead {c : Char} {written : List Char} (h : WrittenAs c written)
    (behind : List Char) :
    readText? (written ++ behind) = (readText? behind).map (putFirst c) := by
  cases h with
  | letter l hescape hl =>
    show readText? ('\\' :: l :: behind) = _
    rw [readText?, hescape]
    rintro a b d e rest rfl -
    cases hescape
  | code hcontrol =>
    have hunit : unitChar? c.toNat = some c := by
      rw [unitChar?, if_neg (by simp; omega), Char.ofNat_toNat]
    show readText? ('\\' :: 'u' :: '0' :: '0' :: _ :: _ :: behind) = _
    rw [readText?, hexUnit?_of_lt hcontrol]
    simp only [hunit]
  | plain hquote hbackslash hcontrol =>
    show readText? (c :: behind) = _
    rw [readText?, if_neg hcontrol]
    · exact hquote
    · rintro a b d e rest hc -
      exact hbackslash hc
    · rintro letter rest hc -
      exact hbackslash hc

/-- What is written as JSON stays on one line. -/
theorem WrittenAs.lineFeed_not_mem {c : Char} {written : List Char} (h : WrittenAs c written) :
    '\n' ∉ written := by
  cases h with
  | letter l hescape hl => simp [hl.symm]
  | code hcontrol =>
    have hdigit : ∀ n < 16, '\n' ≠ Nat.digitChar n := by decide
    have hhigh := hdigit (c.toNat / 16) (by omega)
    have hlow := hdigit (c.toNat % 16) (by omega)
    simp [hhigh, hlow]
  | plain hquote hbackslash hcontrol =>
    rw [List.mem_singleton]
    rintro rfl
    exact hcontrol (by decide)

/-! ## Texts -/

theorem toList_quoted (s : String) :
    (quoted s).toList = '"' :: (s.toList.flatMap (fun c => (quotedChar c).toList) ++ ['"']) := by
  rw [quoted, String.toList_append, String.toList_append, String.toList_join, List.flatMap_map]
  rfl

theorem readText?_quoted (s behind : List Char) :
    readText? (s.flatMap (fun c => (quotedChar c).toList) ++ '"' :: behind) = some (s, behind) := by
  induction s with
  | nil => rfl
  | cons c s ih =>
    rw [List.flatMap_cons, List.append_assoc, (writtenAs_quotedChar c).isRead, ih]
    rfl

theorem lineFeed_not_mem_quoted (s : String) : '\n' ∉ (quoted s).toList := by
  have hchars : '\n' ∉ s.toList.flatMap fun c => (quotedChar c).toList := by
    intro h
    obtain ⟨c, -, hc⟩ := List.mem_flatMap.1 h
    exact (writtenAs_quotedChar c).lineFeed_not_mem hc
  rw [toList_quoted]
  simp [hchars]

/-! ## Tokens -/

/-- The text is read as the tokens, with anything behind it but a digit. -/
def ReadsAs (s : List Char) (tokens : List Token) : Prop :=
  ∀ behind : List Char, (∀ c ∈ behind.head?, c.isDigit = false) →
    tokens? (s ++ behind) = (tokens? behind).map (tokens ++ ·)

theorem ReadsAs.all {s : List Char} {tokens : List Token} (h : ReadsAs s tokens) :
    tokens? s = some tokens := by
  have hall := h [] nofun
  rw [List.append_nil] at hall
  rw [hall, tokens?]
  exact congrArg some (List.append_nil tokens)

theorem readsAs_nil : ReadsAs [] [] := by
  intro behind _
  exact Option.map_id'.symm

theorem readsAs_quoted (s : String) : ReadsAs (quoted s).toList [.text s] := by
  intro behind _
  rw [toList_quoted, List.cons_append, List.append_assoc, List.singleton_append, tokens?]
  simp only [isSpace, Char.reduceBEq, Bool.or_self, Bool.false_eq_true, if_false, if_true]
  split
  · rename_i read after h
    rw [readText?_quoted] at h
    cases h
    rw [String.ofList_toList]
    rfl
  · rename_i h
    rw [readText?_quoted] at h
    cases h

/-- A sign of punctuation between two texts keeps them apart. -/
theorem ReadsAs.append {s r : List Char} {tokens further : List Token} {c : Char} {sign : Token}
    (hs : ReadsAs s tokens) (hc : punctuation? c = some sign) (hr : ReadsAs r further) :
    ReadsAs (s ++ c :: r) (tokens ++ sign :: further) := by
  intro behind hbehind
  have hsign : isSpace c = false ∧ c ≠ '"' ∧ c.isDigit = false := by
    unfold punctuation? at hc
    split at hc
    case h_7 => cases hc
    all_goals decide
  obtain ⟨hspace, hquote, hdigit⟩ := hsign
  have hcons : tokens? (c :: (r ++ behind)) = (tokens? (r ++ behind)).map (sign :: ·) := by
    rw [tokens?, hspace, hdigit]
    simp only [Bool.false_eq_true, if_false, if_neg hquote, hc]
  rw [List.append_assoc, List.cons_append, hs _ (by simpa using hdigit), hcons, hr behind hbehind]
  simp [Option.map_map, Function.comp_def]

/-! ## Counts -/

theorem eq_zero_of_head?_toDigits (n : Nat) (h : (Nat.toDigits 10 n).head? = some '0') : n = 0 := by
  induction n using Nat.strongRecOn with
  | ind n ih =>
    rw [Nat.toDigits_eq_if (by decide)] at h
    split at h
    · rename_i hlt
      have hdigit : ∀ k < 10, Nat.digitChar k = '0' → k = 0 := by decide
      exact hdigit n hlt (Option.some.inj h)
    · rename_i hge
      rw [List.head?_append_of_ne_nil _ Nat.toDigits_ne_nil] at h
      have := ih (n / 10) (by omega) h
      omega

theorem readNumber?_toDigits {n : Nat} (h : n < Text.countBound) :
    readNumber? (Nat.toDigits 10 n) = some n := by
  have hdigits : Text.readDigits? (Nat.toDigits 10 n) = some n := by
    have hall : (Nat.toDigits 10 n).all Char.isDigit = true :=
      List.all_eq_true.2 fun c hc => Nat.isDigit_of_mem_toDigits (by decide) (by decide) hc
    have hvalue : Text.digitsValue (Nat.toDigits 10 n) = n := Nat.ofDigitChars_ten_toDigits
    rw [Text.readDigits?, hall, hvalue, if_pos h, List.isEmpty_eq_false_iff.2 Nat.toDigits_ne_nil]
    rfl
  unfold readNumber?
  split
  · rename_i c rest hzero
    have hn := eq_zero_of_head?_toDigits n (by rw [hzero]; rfl)
    subst hn
    cases hzero
  · exact hdigits

theorem readsAs_count {n : Nat} (h : n < Text.countBound) :
    ReadsAs (toString n).toList [.count n] := by
  intro behind hbehind
  have hnumber := readNumber?_toDigits h
  have hdigits : ∀ c ∈ Nat.toDigits 10 n, c.isDigit = true := fun c hc =>
    Nat.isDigit_of_mem_toDigits (by decide) (by decide) hc
  rw [Nat.toString_eq_ofList_toDigits, String.toList_ofList]
  cases hparts : Nat.toDigits 10 n with
  | nil => exact absurd hparts Nat.toDigits_ne_nil
  | cons d rest =>
    rw [hparts] at hnumber hdigits
    obtain ⟨hd, hrest⟩ := List.forall_mem_cons.1 hdigits
    have hplain : isSpace d = false ∧ d ≠ '"' := by
      refine ⟨Bool.eq_false_iff.2 fun h => ?_, ?_⟩
      · simp only [isSpace, Bool.or_eq_true, beq_iff_eq] at h
        rcases h with ((rfl | rfl) | rfl) | rfl <;> cases hd
      · rintro rfl
        cases hd
    -- The digits end where the number does, as what follows is no digit.
    have htake : (rest ++ behind).takeWhile Char.isDigit = rest :=
      Text.takeWhile_append_of_head? hrest fun c hc => Bool.eq_false_iff.1 (hbehind c hc)
    rw [List.cons_append, tokens?, hplain.1, hd]
    simp only [Bool.false_eq_true, if_false, if_true, if_neg hplain.2, htake, hnumber]
    rw [List.drop_left]
    rfl

/-! ## Objects -/

/-- The tokens of an object, from its keys and the tokens of its values. -/
def objectTokens (fields : List (String × List Token)) : List Token :=
  .openBrace :: ([Token.comma].intercalate (fields.map fun f => .text f.1 :: .colon :: f.2) ++
    [.closeBrace])

/-- The values of the fields are read as the tokens, under the same keys. -/
def FieldsReadAs : List (String × String) → List (String × List Token) → Prop :=
  List.Forall₂ fun f ts => f.1 = ts.1 ∧ ReadsAs f.2.toList ts.2

theorem readsAs_field {key value : String} {tokens : List Token} (h : ReadsAs value.toList tokens) :
    ReadsAs (quoted key ++ ":" ++ value).toList (.text key :: .colon :: tokens) := by
  have hboth := (readsAs_quoted key).append (c := ':') rfl h
  rw [String.toList_append, String.toList_append, List.append_assoc]
  exact hboth

theorem readsAs_intercalate {parts : List String} {tokens : List (List Token)}
    (h : List.Forall₂ (fun p ts => ReadsAs p.toList ts) parts tokens) :
    ReadsAs (",".intercalate parts).toList ([Token.comma].intercalate tokens) := by
  induction h with
  | nil => exact readsAs_nil
  | cons hp hrest ih =>
    cases hrest with
    | nil =>
      rw [String.intercalate_singleton, List.intercalate_singleton]
      exact hp
    | cons hnext hrest =>
      rw [String.intercalate_cons_cons, List.intercalate_cons_cons, String.toList_append,
        String.toList_append, List.append_assoc, List.append_assoc]
      exact hp.append rfl ih

theorem readsAs_object {fields : List (String × String)} {tokens : List (String × List Token)}
    (h : FieldsReadAs fields tokens) : ReadsAs (object fields).toList (objectTokens tokens) := by
  have hparts : List.Forall₂ (fun p ts => ReadsAs p.toList ts)
      (fields.map fun f => quoted f.1 ++ ":" ++ f.2)
      (tokens.map fun f => .text f.1 :: .colon :: f.2) := by
    refine List.forall₂_map_left_iff.2 (List.forall₂_map_right_iff.2 (h.imp ?_))
    rintro f ts ⟨hkey, hvalue⟩
    rw [hkey]
    exact readsAs_field hvalue
  have hinside := (readsAs_intercalate hparts).append (c := '\x7d') rfl readsAs_nil
  have hall := readsAs_nil.append (c := '\x7b') rfl hinside
  rw [object, String.toList_append, String.toList_append]
  exact hall

theorem lineFeed_not_mem_intercalate {parts : List String} (h : ∀ p ∈ parts, '\n' ∉ p.toList) :
    '\n' ∉ (",".intercalate parts).toList := by
  induction parts with
  | nil => exact List.not_mem_nil
  | cons p rest ih =>
    obtain ⟨hp, hrest⟩ := List.forall_mem_cons.1 h
    cases rest with
    | nil =>
      rw [String.intercalate_singleton]
      exact hp
    | cons next rest =>
      rw [String.intercalate_cons_cons, String.toList_append, String.toList_append]
      exact List.not_mem_append (List.not_mem_append hp (by decide)) (ih hrest)

theorem lineFeed_not_mem_object {fields : List (String × String)}
    (h : ∀ f ∈ fields, '\n' ∉ f.2.toList) : '\n' ∉ (object fields).toList := by
  have hinside : '\n' ∉ (",".intercalate (fields.map fun f => quoted f.1 ++ ":" ++ f.2)).toList := by
    refine lineFeed_not_mem_intercalate (List.forall_mem_map.2 fun f hf => ?_)
    rw [String.toList_append, String.toList_append]
    exact List.not_mem_append (List.not_mem_append (lineFeed_not_mem_quoted f.1) (by decide)) (h f hf)
  rw [object, String.toList_append, String.toList_append]
  exact List.not_mem_append (List.not_mem_append (by decide) hinside) (by decide)

end StructuralSearch.StandIn.Json
