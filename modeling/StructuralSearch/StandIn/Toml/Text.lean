import StructuralSearch.StandIn.Json.Token

/-!
# Texts in TOML

A text stands between double quotes, with escapes, or between single quotes, without. Between three
quotes of either sort it can have several lines. Each reader begins behind the opening quotes and
answers the text with what follows its closing ones, which is shorter than what it began with.
Line ends are line feeds.
-/
namespace StructuralSearch.StandIn.Toml

/-- Spaces and tabs, which may stand between the parts of a line. -/
def isSpace (c : Char) : Bool :=
  c == ' ' || c == '\t'

/-- The characters that can stand for themselves on a line: no controls but the tab. -/
def isPlain (c : Char) : Bool :=
  c == '\t' || (0x20 ≤ c.toNat && c.toNat != 0x7F)

/-- The character of eight digits in base sixteen. -/
def longEscape? (high low : Option Nat) : Option Char := do
  let n := (← high) * 0x10000 + (← low)
  if n < 0x110000 then Json.unitChar? n else none

/-- A character from the escape after its backslash. -/
def escaped? : List Char → Option (Char × List Char)
  | 'u' :: a :: b :: c :: d :: rest =>
    ((Json.hexUnit? a b c d).bind Json.unitChar?).map (·, rest)
  | 'U' :: a :: b :: c :: d :: e :: f :: g :: h :: rest =>
    (longEscape? (Json.hexUnit? a b c d) (Json.hexUnit? e f g h)).map (·, rest)
  | '/' :: _ => none
  | letter :: rest => (Json.shortEscape? letter).map (·, rest)
  | [] => none

theorem length_of_escaped? {cs : List Char} {read : Char × List Char}
    (h : escaped? cs = some read) : read.2.length < cs.length := by
  unfold escaped? at h
  split at h
  · obtain ⟨_, _, rfl⟩ := Option.map_eq_some_iff.1 h
    simp only [List.length_cons]
    omega
  · obtain ⟨_, _, rfl⟩ := Option.map_eq_some_iff.1 h
    simp only [List.length_cons]
    omega
  · cases h
  · obtain ⟨_, _, rfl⟩ := Option.map_eq_some_iff.1 h
    simp
  · cases h

theorem length_dropWhile_le (p : Char → Bool) (cs : List Char) :
    (cs.dropWhile p).length ≤ cs.length :=
  (List.dropWhile_sublist p).length_le

/-- Reads a text between double quotes. -/
def readText? : List Char → Option (List Char × List Char)
  | [] => none
  | c :: rest =>
    if c = '"' then some ([], rest)
    else if c = '\\' then
      match h : escaped? rest with
      | some (char, after) =>
        have : after.length < rest.length := length_of_escaped? h
        (readText? after).map (Json.putFirst char)
      | none => none
    else if isPlain c then (readText? rest).map (Json.putFirst c)
    else none
termination_by cs => cs.length

/-- Reads a text between single quotes. -/
def readLiteral? : List Char → Option (List Char × List Char)
  | [] => none
  | c :: rest =>
    if c = '\'' then some ([], rest)
    else if isPlain c then (readLiteral? rest).map (Json.putFirst c)
    else none

/-- The end of a text between three quotes, behind these: one or two quotes more belong to the
text. -/
def closing (quote : Char) (cs : List Char) : List Char × List Char :=
  let extra := (cs.take 2).takeWhile (· == quote)
  (extra, cs.drop extra.length)

/-- What follows the line end behind a backslash, without the blanks that it begins with. Spaces may
stand before the line end. -/
def joined? (cs : List Char) : Option (List Char) :=
  match cs.dropWhile isSpace with
  | '\n' :: after => some (after.dropWhile fun c => isSpace c || c == '\n')
  | _ => none

theorem length_of_joined? {cs after : List Char} (h : joined? cs = some after) :
    after.length < cs.length := by
  unfold joined? at h
  split at h
  · rename_i behind hb
    cases h
    have hcs := length_dropWhile_le isSpace cs
    have hbehind := length_dropWhile_le (fun c => isSpace c || c == '\n') behind
    rw [hb, List.length_cons] at hcs
    omega
  · cases h

/-- Reads a text between three double quotes. A backslash at the end of a line joins it to the next
line that is not blank. -/
def readLines? : List Char → Option (List Char × List Char)
  | [] => none
  | '"' :: '"' :: '"' :: rest => some (closing '"' rest)
  | c :: rest =>
    if c = '\\' then
      match h : joined? rest with
      | some after =>
        have : after.length < rest.length := length_of_joined? h
        readLines? after
      | none =>
        match h : escaped? rest with
        | some (char, after) =>
          have : after.length < rest.length := length_of_escaped? h
          (readLines? after).map (Json.putFirst char)
        | none => none
    else if c = '\n' || isPlain c then (readLines? rest).map (Json.putFirst c)
    else none
termination_by cs => cs.length

/-- Reads a text between three single quotes. -/
def readLiteralLines? : List Char → Option (List Char × List Char)
  | [] => none
  | '\'' :: '\'' :: '\'' :: rest => some (closing '\'' rest)
  | c :: rest =>
    if c = '\n' || isPlain c then (readLiteralLines? rest).map (Json.putFirst c) else none

theorem length_closing_le (quote : Char) (cs : List Char) :
    (closing quote cs).2.length ≤ cs.length := by
  simp [closing]

theorem length_map_putFirst {c : Char} {cs : List Char} {next : Option (List Char × List Char)}
    {read : List Char × List Char} (ih : ∀ r, next = some r → r.2.length < cs.length)
    (h : next.map (Json.putFirst c) = some read) : read.2.length < cs.length := by
  obtain ⟨r, hr, rfl⟩ := Option.map_eq_some_iff.1 h
  exact ih r hr

theorem length_of_readText? {cs : List Char} {read : List Char × List Char}
    (h : readText? cs = some read) : read.2.length < cs.length := by
  fun_induction readText? cs generalizing read with
  | case1 => cases h
  | case2 => cases h; simp
  | case3 rest char after he shorter _ ih =>
    have := length_map_putFirst (fun r hr => ih hr) h
    simp only [List.length_cons]
    omega
  | case4 => cases h
  | case5 c rest _ _ _ ih =>
    have := length_map_putFirst (fun r hr => ih hr) h
    simp only [List.length_cons]
    omega
  | case6 => cases h

theorem length_of_readLiteral? {cs : List Char} {read : List Char × List Char}
    (h : readLiteral? cs = some read) : read.2.length < cs.length := by
  fun_induction readLiteral? cs generalizing read with
  | case1 => cases h
  | case2 => cases h; simp
  | case3 c rest _ _ ih =>
    have := length_map_putFirst (fun r hr => ih hr) h
    simp only [List.length_cons]
    omega
  | case4 => cases h

theorem length_of_readLines? {cs : List Char} {read : List Char × List Char}
    (h : readLines? cs = some read) : read.2.length < cs.length := by
  fun_induction readLines? cs generalizing read
  case case1 => cases h
  case case2 rest =>
    cases h
    have := length_closing_le '"' rest
    simp only [List.length_cons]
    omega
  case case3 rest after hj shorter _ ih =>
    have := ih h
    simp only [List.length_cons]
    omega
  case case4 rest _ char after he shorter _ ih =>
    have := length_map_putFirst (fun r hr => ih hr) h
    simp only [List.length_cons]
    omega
  case case5 => cases h
  case case6 c rest _ _ _ ih =>
    have := length_map_putFirst (fun r hr => ih hr) h
    simp only [List.length_cons]
    omega
  case case7 => cases h

theorem length_of_readLiteralLines? {cs : List Char} {read : List Char × List Char}
    (h : readLiteralLines? cs = some read) : read.2.length < cs.length := by
  fun_induction readLiteralLines? cs generalizing read
  case case1 => cases h
  case case2 rest =>
    cases h
    have := length_closing_le '\'' rest
    simp only [List.length_cons]
    omega
  case case3 c rest _ _ ih =>
    have := length_map_putFirst (fun r hr => ih hr) h
    simp only [List.length_cons]
    omega
  case case4 => cases h

end StructuralSearch.StandIn.Toml
