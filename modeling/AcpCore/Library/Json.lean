import AcpCore.Library.Text
import Mathlib.Data.List.TakeWhile
import Mathlib.Data.Nat.Notation
import Mathlib.Tactic.IntervalCases

/-!
# JSON text

The syntax of JSON text (RFC 8259): its trees, the compact text of a tree and a
recursive-descent reader.

A tree (`Tree`) is what the text says and no more: a number is its literal, and
an object is the list of its members as written, repeated names included. A
number literal carries the proof that the grammar derives it (`Literal`), so
that every tree has a text.

* `parse_render` — the reader gives back the tree whose text it is given, so no
  two trees have the same text (`render_injective`).
* `parse_cut` — no proper prefix of an object's text is JSON text: a text cut
  short is rejected.

The reader takes whitespace between tokens as the RFC allows; the compact text
has none. Recursion is bounded by the length of the text.
-/

namespace AcpCore.Json

open AcpCore.Text

/-! ### Number literals -/

/-- `1*DIGIT`: what is left after the digits. -/
def digits : Str → Option Str
  | [] => none
  | c :: s => if c.isDigit then some (s.dropWhile Char.isDigit) else none

/-- `int = zero / ( digit1-9 *DIGIT )`. -/
def int : Str → Option Str
  | [] => none
  | c :: s => if c = '0' then some s else digits (c :: s)

/-- `[ frac ]`, `frac = decimal-point 1*DIGIT`. -/
def frac : Str → Option Str
  | [] => some []
  | c :: s => if c = '.' then digits s else some (c :: s)

/-- `[ minus / plus ]`. -/
def sign : Str → Str
  | [] => []
  | c :: s => if c = '-' ∨ c = '+' then s else c :: s

/-- `[ exp ]`, `exp = e [ minus / plus ] 1*DIGIT`. -/
def exp : Str → Option Str
  | [] => some []
  | c :: s => if c = 'e' ∨ c = 'E' then digits (sign s) else some (c :: s)

/-- `[ minus ]`. -/
def minus : Str → Str
  | [] => []
  | c :: s => if c = '-' then s else c :: s

/-- `number = [ minus ] int [ frac ] [ exp ]`: what is left after a number. -/
def number (s : Str) : Option Str := (int (minus s)).bind fun s => (frac s).bind exp

/-- A number literal. -/
abbrev Literal := { s : Str // number s = some [] }

/-- The characters a number is written with. -/
def isNumChar (c : Char) : Bool := c.isDigit || c == '-' || c == '+' || c == '.' || c == 'e' || c == 'E'

/-- `s` is `r` after some characters a number is written with. -/
def NumPrefix (s r : Str) : Prop := ∃ p, s = p ++ r ∧ ∀ c ∈ p, isNumChar c = true

theorem NumPrefix.refl (s : Str) : NumPrefix s s := ⟨[], rfl, by simp⟩

theorem NumPrefix.trans {s t u : Str} (h₁ : NumPrefix s t) (h₂ : NumPrefix t u) : NumPrefix s u := by
  obtain ⟨p, rfl, hp⟩ := h₁
  obtain ⟨q, rfl, hq⟩ := h₂
  refine ⟨p ++ q, (List.append_assoc p q u).symm, fun c hc => ?_⟩
  rcases List.mem_append.mp hc with hc | hc
  · exact hp c hc
  · exact hq c hc

theorem NumPrefix.cons {c : Char} {s r : Str} (hc : isNumChar c = true) (h : NumPrefix s r) : NumPrefix (c :: s) r := by
  obtain ⟨p, rfl, hp⟩ := h
  exact ⟨c :: p, rfl, by simpa [hc] using hp⟩

theorem isNumChar_of_isDigit {c : Char} (h : c.isDigit = true) : isNumChar c = true := by simp [isNumChar, h]

theorem numPrefix_dropWhile (s : Str) : NumPrefix s (s.dropWhile Char.isDigit) := by
  induction s with
  | nil => exact NumPrefix.refl []
  | cons c s ih =>
    rw [List.dropWhile_cons]
    split_ifs with hc
    · exact ih.cons (isNumChar_of_isDigit hc)
    · exact NumPrefix.refl (c :: s)

theorem numPrefix_digits {s r : Str} (h : digits s = some r) : NumPrefix s r := by
  cases s with
  | nil => cases h
  | cons c s =>
    rw [digits] at h
    split_ifs at h with hc
    rw [Option.some.injEq] at h
    subst h
    exact (numPrefix_dropWhile s).cons (isNumChar_of_isDigit hc)

theorem numPrefix_int {s r : Str} (h : int s = some r) : NumPrefix s r := by
  cases s with
  | nil => cases h
  | cons c s =>
    rw [int] at h
    split_ifs at h with hc
    · rw [Option.some.injEq] at h
      subst hc h
      exact (NumPrefix.refl s).cons (by decide)
    · exact numPrefix_digits h

theorem numPrefix_frac {s r : Str} (h : frac s = some r) : NumPrefix s r := by
  cases s with
  | nil => cases h; exact NumPrefix.refl []
  | cons c s =>
    rw [frac] at h
    split_ifs at h with hc
    · exact (numPrefix_digits h).cons (by simp [isNumChar, hc])
    · cases h; exact NumPrefix.refl _

theorem numPrefix_sign (s : Str) : NumPrefix s (sign s) := by
  cases s with
  | nil => exact NumPrefix.refl []
  | cons c s =>
    rw [sign]
    split_ifs with hc
    · exact (NumPrefix.refl s).cons (by rcases hc with rfl | rfl <;> decide)
    · exact NumPrefix.refl _

theorem numPrefix_exp {s r : Str} (h : exp s = some r) : NumPrefix s r := by
  cases s with
  | nil => cases h; exact NumPrefix.refl []
  | cons c s =>
    rw [exp] at h
    split_ifs at h with hc
    · exact ((numPrefix_sign s).trans (numPrefix_digits h)).cons (by rcases hc with rfl | rfl <;> decide)
    · cases h; exact NumPrefix.refl _

theorem numPrefix_minus (s : Str) : NumPrefix s (minus s) := by
  cases s with
  | nil => exact NumPrefix.refl []
  | cons c s =>
    rw [minus]
    split_ifs with hc
    · exact (NumPrefix.refl s).cons (by subst hc; decide)
    · exact NumPrefix.refl _

theorem numPrefix_number {s r : Str} (h : number s = some r) : NumPrefix s r := by
  unfold number at h
  rw [Option.bind_eq_some_iff] at h
  obtain ⟨s₁, h₁, h⟩ := h
  rw [Option.bind_eq_some_iff] at h
  obtain ⟨s₂, h₂, h₃⟩ := h
  exact (numPrefix_minus s).trans ((numPrefix_int h₁).trans ((numPrefix_frac h₂).trans (numPrefix_exp h₃)))

/-- A literal is written with number characters only. -/
theorem Literal.all_isNumChar (l : Literal) : ∀ c ∈ l.1, isNumChar c = true := by
  obtain ⟨p, hp, hall⟩ := numPrefix_number l.2
  rw [List.append_nil] at hp
  rw [hp]
  exact hall

/-- A literal begins with a digit or a minus. -/
theorem Literal.head (l : Literal) : ∃ c s, l.1 = c :: s ∧ (c = '-' ∨ c.isDigit = true) := by
  obtain ⟨s, hs⟩ := l
  cases s with
  | nil => exact absurd hs (by decide)
  | cons c s =>
    refine ⟨c, s, rfl, ?_⟩
    by_contra hc
    rw [not_or] at hc
    have hz : c ≠ '0' := by rintro rfl; exact hc.2 (by decide)
    rw [number, minus, if_neg hc.1, int, if_neg hz, digits, if_neg hc.2] at hs
    cases hs

/-! ### Integers -/

theorem isDigit_of_mem_decimal {n : ℕ} {c : Char} (h : c ∈ Nat.toDigits 10 n) : c.isDigit = true :=
  Nat.isDigit_of_mem_toDigits (by decide) (by decide) h

theorem head_decimal (n : ℕ) (hn : 0 < n) : ∃ c s, Nat.toDigits 10 n = c :: s ∧ c ≠ '0' := by
  induction n using Nat.strong_induction_on with
  | _ n ih =>
    by_cases h : n < 10
    · refine ⟨n.digitChar, [], Nat.toDigits_of_lt_base h, ?_⟩
      interval_cases n <;> decide
    · obtain ⟨c, s, hs, hc⟩ := ih (n / 10) (by omega) (by omega)
      have happ := Nat.toDigits_append_toDigits (b := 10) (n := n / 10) (d := n % 10) (by decide) (by omega)
        (Nat.mod_lt n (by decide))
      rw [Nat.div_add_mod] at happ
      exact ⟨c, s ++ Nat.toDigits 10 (n % 10), by rw [← happ, hs]; rfl, hc⟩

theorem dropWhile_digits {s : Str} (h : ∀ c ∈ s, c.isDigit = true) : s.dropWhile Char.isDigit = [] :=
  List.dropWhile_eq_nil_iff.mpr h

theorem int_decimal (n : ℕ) : int (Nat.toDigits 10 n) = some [] := by
  rcases Nat.eq_zero_or_pos n with rfl | hn
  · rfl
  · obtain ⟨c, s, hs, hc⟩ := head_decimal n hn
    have hdig : ∀ d ∈ c :: s, d.isDigit = true := fun d hd => isDigit_of_mem_decimal (hs ▸ hd)
    rw [hs, int, if_neg hc, digits, if_pos (hdig c List.mem_cons_self),
      dropWhile_digits fun d hd => hdig d (List.mem_cons_of_mem c hd)]

theorem minus_decimal (n : ℕ) : minus (Nat.toDigits 10 n) = Nat.toDigits 10 n := by
  rcases hs : Nat.toDigits 10 n with _ | ⟨c, s⟩
  · rfl
  · have hc : c.isDigit = true := isDigit_of_mem_decimal (n := n) (hs ▸ List.mem_cons_self)
    rw [minus, if_neg]
    rintro rfl
    exact absurd hc (by decide)

theorem number_of_int {s : Str} (h : int (minus s) = some []) : number s = some [] := by
  rw [number, h]
  rfl

/-- The decimal literal of a natural number. -/
def natLit (n : ℕ) : Literal := ⟨Nat.toDigits 10 n, number_of_int (by rw [minus_decimal, int_decimal])⟩

/-- The decimal literal of `–(n+1)`. -/
def negLit (n : ℕ) : Literal := ⟨'-' :: Nat.toDigits 10 (n + 1), number_of_int (by
  rw [minus, if_pos rfl, int_decimal])⟩

/-- A literal with a fraction or an exponent. -/
def Literal.Fractional (l : Literal) : Prop := ∃ c ∈ l.1, c = '.' ∨ c = 'e' ∨ c = 'E'

theorem not_fractional_natLit (n : ℕ) : ¬ (natLit n).Fractional := by
  rintro ⟨c, hc, h⟩
  have hd := isDigit_of_mem_decimal hc
  rcases h with rfl | rfl | rfl <;> exact absurd hd (by decide)

theorem not_fractional_negLit (n : ℕ) : ¬ (negLit n).Fractional := by
  rintro ⟨c, hc, h⟩
  rcases List.mem_cons.mp hc with rfl | hc
  · simp at h
  · exact not_fractional_natLit (n + 1) ⟨c, hc, h⟩

/-- The natural number a literal of digits only denotes. -/
def readNat (s : Str) : Option ℕ :=
  if s ≠ [] ∧ s.all Char.isDigit then some (Nat.ofDigitChars 10 s 0) else none

/-- The integer a literal of digits only, after an optional minus, denotes. -/
def readInt : Str → Option ℤ
  | '-' :: s => (readNat s).map fun n => -(n : ℤ)
  | s => (readNat s).map fun n => (n : ℤ)

theorem readNat_decimal (n : ℕ) : readNat (Nat.toDigits 10 n) = some n := by
  have hall : (Nat.toDigits 10 n).all Char.isDigit = true := by
    rw [List.all_eq_true]
    exact fun c hc => isDigit_of_mem_decimal hc
  rw [readNat, if_pos ⟨Nat.toDigits_ne_nil, hall⟩, Nat.ofDigitChars_ten_toDigits]

@[simp] theorem readNat_natLit (n : ℕ) : readNat (natLit n).1 = some n := readNat_decimal n

theorem natLit_injective : Function.Injective natLit := by
  intro m n h
  have := congrArg (fun l : Literal => readNat l.1) h
  simpa using this

theorem negLit_injective : Function.Injective negLit := by
  intro m n h
  have htail : Nat.toDigits 10 (m + 1) = Nat.toDigits 10 (n + 1) := (List.cons.inj (congrArg Subtype.val h)).2
  exact Nat.succ.inj (natLit_injective (Subtype.ext htail))

/-- A sign, or no sign. -/
theorem natLit_ne_negLit (m n : ℕ) : natLit m ≠ negLit n := by
  intro h
  have hm : Nat.toDigits 10 m = '-' :: Nat.toDigits 10 (n + 1) := congrArg Subtype.val h
  exact absurd (isDigit_of_mem_decimal (hm ▸ List.mem_cons_self)) (by decide)

@[simp] theorem readInt_natLit (n : ℕ) : readInt (natLit n).1 = some (n : ℤ) := by
  rw [natLit, readInt, readNat_decimal]
  · rfl
  · intro s hs
    have hs' : Nat.toDigits 10 n = '-' :: s := hs
    have hd : Char.isDigit '-' = true := isDigit_of_mem_decimal (n := n) (hs' ▸ List.mem_cons_self)
    exact absurd hd (by decide)

@[simp] theorem readInt_negLit (n : ℕ) : readInt (negLit n).1 = some (Int.negSucc n) := by
  rw [negLit, readInt, readNat_decimal]
  rfl

/-! ### Strings -/

/-- A hexadecimal digit, lower case. -/
def hexDigit (n : ℕ) : Char := if n < 10 then Char.ofNat (0x30 + n) else Char.ofNat (0x57 + n)

/-- A character as written in a string: the two-character escapes, `\u00xx` for
the other control characters, and every other character as itself. -/
def escape (c : Char) : Str :=
  if c = '"' then ['\\', '"']
  else if c = '\\' then ['\\', '\\']
  else if c = '\x08' then ['\\', 'b']
  else if c = '\x09' then ['\\', 't']
  else if c = '\x0a' then ['\\', 'n']
  else if c = '\x0c' then ['\\', 'f']
  else if c = '\x0d' then ['\\', 'r']
  else if c.toNat < 0x20 then ['\\', 'u', '0', '0', hexDigit (c.toNat / 16), hexDigit (c.toNat % 16)]
  else [c]

/-- A string in quotes. -/
def renderStr (s : Str) : Str := '"' :: (s.flatMap escape ++ ['"'])

/-- The value of a hexadecimal digit. -/
def hexVal (c : Char) : Option ℕ :=
  if c.isDigit then some (c.toNat - 0x30)
  else if 'a' ≤ c ∧ c ≤ 'f' then some (c.toNat - 0x57)
  else if 'A' ≤ c ∧ c ≤ 'F' then some (c.toNat - 0x37)
  else none

/-- `4HEXDIG`. -/
def hex4 : Str → Option (ℕ × Str)
  | a :: b :: c :: d :: s =>
    match hexVal a, hexVal b, hexVal c, hexVal d with
    | some a, some b, some c, some d => some (((a * 16 + b) * 16 + c) * 16 + d, s)
    | _, _, _, _ => none
  | _ => none

/-- The low surrogate that must follow the high surrogate `u`. -/
def lowSurrogate (u : ℕ) : Str → Option (Char × Str)
  | '\\' :: 'u' :: s =>
    (hex4 s).bind fun (l, s) =>
      if 0xDC00 ≤ l ∧ l ≤ 0xDFFF then some (Char.ofNat (0x10000 + (u - 0xD800) * 0x400 + (l - 0xDC00)), s)
      else none
  | _ => none

/-- After a backslash and `u`. -/
def unicodeEscape (s : Str) : Option (Char × Str) :=
  (hex4 s).bind fun (u, s) =>
    if u < 0xD800 ∨ 0xDFFF < u then some (Char.ofNat u, s)
    else if u < 0xDC00 then lowSurrogate u s
    else none

/-- After a backslash. -/
def escaped : Str → Option (Char × Str)
  | [] => none
  | e :: s =>
    if e = '"' then some ('"', s)
    else if e = '\\' then some ('\\', s)
    else if e = '/' then some ('/', s)
    else if e = 'b' then some ('\x08', s)
    else if e = 't' then some ('\x09', s)
    else if e = 'n' then some ('\x0a', s)
    else if e = 'f' then some ('\x0c', s)
    else if e = 'r' then some ('\x0d', s)
    else if e = 'u' then unicodeEscape s
    else none

/-- The next character of a string, or the quote that ends it. -/
def oneChar : Str → Option (Option Char × Str)
  | [] => none
  | c :: s =>
    if c = '"' then some (none, s)
    else if c = '\\' then (escaped s).map fun (c, s) => (some c, s)
    else if c.toNat < 0x20 then none
    else some (some c, s)

/-- The rest of a string, of at most `n` characters, up to the quote that ends it. -/
def parseChars : ℕ → Str → Option (Str × Str)
  | 0, _ => none
  | n + 1, s =>
    match oneChar s with
    | none => none
    | some (none, s) => some ([], s)
    | some (some c, s) => (parseChars n s).map fun (cs, s) => (c :: cs, s)

/-- A control character is read back from its `\u00xx`. -/
theorem unicodeEscape_control : ∀ n < 0x20, ∀ s,
    unicodeEscape ('0' :: '0' :: hexDigit (n / 16) :: hexDigit (n % 16) :: s) = some (Char.ofNat n, s) := by
  intro n hn s
  interval_cases n <;> rfl

/-- The characters that are written with a backslash and a letter. -/
def shortEscaped : List Char := ['"', '\\', '\x08', '\x09', '\x0a', '\x0c', '\x0d']

theorem escape_of_notMem {c : Char} (hc : c ∉ shortEscaped) : escape c =
    if c.toNat < 0x20 then ['\\', 'u', '0', '0', hexDigit (c.toNat / 16), hexDigit (c.toNat % 16)] else [c] := by
  simp only [shortEscaped, List.mem_cons, List.not_mem_nil, or_false, not_or] at hc
  obtain ⟨h₁, h₂, h₃, h₄, h₅, h₆, h₇⟩ := hc
  rw [escape, if_neg h₁, if_neg h₂, if_neg h₃, if_neg h₄, if_neg h₅, if_neg h₆, if_neg h₇]

/-- A character is written as a backslash and a letter that is read back as it, as `\u00xx`, or as itself. -/
theorem escape_cases (c : Char) :
    (∃ e, escape c = ['\\', e] ∧ 0x20 ≤ e.toNat ∧ ∀ s, escaped (e :: s) = some (c, s)) ∨
    (c.toNat < 0x20 ∧ escape c = ['\\', 'u', '0', '0', hexDigit (c.toNat / 16), hexDigit (c.toNat % 16)]) ∨
    (escape c = [c] ∧ c ≠ '"' ∧ c ≠ '\\' ∧ 0x20 ≤ c.toNat) := by
  by_cases hc : c ∈ shortEscaped
  · left
    simp only [shortEscaped, List.mem_cons, List.not_mem_nil, or_false] at hc
    rcases hc with rfl | rfl | rfl | rfl | rfl | rfl | rfl <;> exact ⟨_, rfl, by decide, fun s => rfl⟩
  · right
    rw [escape_of_notMem hc]
    by_cases hcontrol : c.toNat < 0x20
    · exact .inl ⟨hcontrol, if_pos hcontrol⟩
    · refine .inr ⟨if_neg hcontrol, ?_, ?_, not_lt.mp hcontrol⟩
      · rintro rfl
        exact hc (by decide)
      · rintro rfl
        exact hc (by decide)

/-- Reading inverts escaping. -/
theorem oneChar_escape (c : Char) (s : Str) : oneChar (escape c ++ s) = some (some c, s) := by
  rcases escape_cases c with ⟨e, hescape, -, he⟩ | ⟨hcontrol, hescape⟩ | ⟨hescape, hquote, hslash, hcontrol⟩
  · rw [hescape]
    show (escaped (e :: s)).map _ = _
    rw [he, Option.map_some]
  · rw [hescape]
    have hu := unicodeEscape_control c.toNat hcontrol s
    rw [Char.ofNat_toNat] at hu
    have he : escaped ('u' :: '0' :: '0' :: hexDigit (c.toNat / 16) :: hexDigit (c.toNat % 16) :: s) = some (c, s) := hu
    show (escaped _).map _ = _
    exact congrArg (Option.map _) he
  · rw [hescape]
    show oneChar (c :: s) = _
    rw [oneChar, if_neg hquote, if_neg hslash, if_neg (not_lt.mpr hcontrol)]

theorem escape_ne_nil (c : Char) : escape c ≠ [] := by
  rcases escape_cases c with ⟨e, h, -⟩ | ⟨-, h⟩ | ⟨h, -⟩ <;> simp [h]

theorem parseChars_escape (cs s : Str) : ∀ n, (cs.flatMap escape).length < n →
    parseChars n (cs.flatMap escape ++ '"' :: s) = some (cs, s) := by
  induction cs with
  | nil =>
    intro n hn
    cases n with
    | zero => omega
    | succ n => rfl
  | cons c cs ih =>
    intro n hn
    have hpos : 0 < (escape c).length := List.length_pos_of_ne_nil (escape_ne_nil c)
    rw [List.flatMap_cons, List.length_append] at hn
    cases n with
    | zero => omega
    | succ n =>
      rw [List.flatMap_cons, List.append_assoc, parseChars, oneChar_escape]
      simp only [ih n (by omega), Option.map_some]

/-! ### Trees and their text -/

/-- What a JSON text says: a number by its literal, an object by its members in order. -/
inductive Tree where
  /-- `null`. -/
  | null
  /-- `true`, `false`. -/
  | bool (b : Bool)
  /-- A number. -/
  | num (l : Literal)
  /-- A string. -/
  | str (s : Str)
  /-- An array. -/
  | arr (ts : List Tree)
  /-- An object. -/
  | obj (ms : List (Str × Tree))

mutual

/-- The compact text of a tree: no whitespace, members in order. -/
def render : Tree → Str
  | .null => ['n', 'u', 'l', 'l']
  | .bool true => ['t', 'r', 'u', 'e']
  | .bool false => ['f', 'a', 'l', 's', 'e']
  | .num l => l.1
  | .str s => renderStr s
  | .arr ts => '[' :: (sepBy ',' (renderItems ts) ++ [']'])
  | .obj ms => '{' :: (sepBy ',' (renderMembers ms) ++ ['}'])

/-- The texts of an array's items. -/
def renderItems : List Tree → List Str
  | [] => []
  | t :: ts => render t :: renderItems ts

/-- The texts of an object's members. -/
def renderMembers : List (Str × Tree) → List Str
  | [] => []
  | (k, t) :: ms => (renderStr k ++ ':' :: render t) :: renderMembers ms

end

theorem renderItems_eq_map (ts : List Tree) : renderItems ts = ts.map render := by
  induction ts with
  | nil => rfl
  | cons t ts ih => rw [renderItems, ih]; rfl

theorem renderMembers_eq_map (ms : List (Str × Tree)) :
    renderMembers ms = ms.map fun m => renderStr m.1 ++ ':' :: render m.2 := by
  induction ms with
  | nil => rfl
  | cons m ms ih => rw [renderMembers, ih]; rfl

mutual

/-- Induction on trees, with a hypothesis for each item and each member. -/
theorem Tree.ind {P : Tree → Prop} (null : P .null) (bool : ∀ b, P (.bool b)) (num : ∀ l, P (.num l))
    (str : ∀ s, P (.str s)) (arr : ∀ ts, (∀ t ∈ ts, P t) → P (.arr ts))
    (obj : ∀ ms : List (Str × Tree), (∀ m ∈ ms, P m.2) → P (.obj ms)) : ∀ t, P t
  | .null => null
  | .bool b => bool b
  | .num l => num l
  | .str s => str s
  | .arr ts => arr ts (Tree.indItems null bool num str arr obj ts)
  | .obj ms => obj ms (Tree.indMembers null bool num str arr obj ms)

theorem Tree.indItems {P : Tree → Prop} (null : P .null) (bool : ∀ b, P (.bool b)) (num : ∀ l, P (.num l))
    (str : ∀ s, P (.str s)) (arr : ∀ ts, (∀ t ∈ ts, P t) → P (.arr ts))
    (obj : ∀ ms : List (Str × Tree), (∀ m ∈ ms, P m.2) → P (.obj ms)) : ∀ ts : List Tree, ∀ t ∈ ts, P t
  | [], _, h => by cases h
  | u :: ts, t, h => by
    rcases List.mem_cons.mp h with ht | h
    · exact ht ▸ Tree.ind null bool num str arr obj u
    · exact Tree.indItems null bool num str arr obj ts t h

theorem Tree.indMembers {P : Tree → Prop} (null : P .null) (bool : ∀ b, P (.bool b)) (num : ∀ l, P (.num l))
    (str : ∀ s, P (.str s)) (arr : ∀ ts, (∀ t ∈ ts, P t) → P (.arr ts))
    (obj : ∀ ms : List (Str × Tree), (∀ m ∈ ms, P m.2) → P (.obj ms)) :
    ∀ ms : List (Str × Tree), ∀ m ∈ ms, P m.2
  | [], _, h => by cases h
  | (_, u) :: ms, m, h => by
    rcases List.mem_cons.mp h with hm | h
    · exact hm ▸ Tree.ind null bool num str arr obj u
    · exact Tree.indMembers null bool num str arr obj ms m h

end

mutual

/-- How deep arrays and objects are nested. -/
def Tree.depth : Tree → ℕ
  | .arr ts => depthItems ts + 1
  | .obj ms => depthMembers ms + 1
  | _ => 0

/-- The depth of the deepest item. -/
def depthItems : List Tree → ℕ
  | [] => 0
  | t :: ts => max t.depth (depthItems ts)

/-- The depth of the deepest member. -/
def depthMembers : List (Str × Tree) → ℕ
  | [] => 0
  | (_, t) :: ms => max t.depth (depthMembers ms)

end

/-! ### The text is one line -/

theorem mem_sepBy {α : Type*} {sep c : α} {ps : List (List α)} (h : c ∈ sepBy sep ps) :
    c = sep ∨ ∃ p ∈ ps, c ∈ p := by
  induction ps with
  | nil => cases h
  | cons p ps ih =>
    cases ps with
    | nil => exact .inr ⟨p, List.mem_cons_self, h⟩
    | cons q ps =>
      rw [sepBy_cons_cons, List.mem_append, List.mem_cons] at h
      rcases h with h | rfl | h
      · exact .inr ⟨p, List.mem_cons_self, h⟩
      · exact .inl rfl
      · exact (ih h).imp_right fun ⟨r, hr, hc⟩ => ⟨r, List.mem_cons_of_mem p hr, hc⟩

theorem control_hexDigit : ∀ n < 16, 0x20 ≤ (hexDigit n).toNat := by decide +kernel

theorem control_of_all {s : Str} (hs : s.all fun c => 0x20 ≤ c.toNat) {d : Char} (h : d ∈ s) : 0x20 ≤ d.toNat :=
  of_decide_eq_true (List.all_eq_true.mp hs d h)

theorem control_escape {c d : Char} (h : d ∈ escape c) : 0x20 ≤ d.toNat := by
  rcases escape_cases c with ⟨e, hescape, he, -⟩ | ⟨hcontrol, hescape⟩ | ⟨hescape, -, -, hc⟩
  · simp only [hescape, List.mem_cons, List.not_mem_nil, or_false] at h
    rcases h with rfl | rfl
    · decide
    · exact he
  · simp only [hescape, List.mem_cons, List.not_mem_nil, or_false] at h
    rcases h with rfl | rfl | rfl | rfl | rfl | rfl
    · decide
    · decide
    · decide
    · decide
    · exact control_hexDigit _ (by omega)
    · exact control_hexDigit _ (by omega)
  · rw [hescape] at h
    obtain rfl := List.mem_singleton.mp h
    exact hc

theorem control_renderStr {s : Str} {d : Char} (h : d ∈ renderStr s) : 0x20 ≤ d.toNat := by
  simp only [renderStr, List.mem_cons, List.mem_append, List.mem_flatMap, List.not_mem_nil, or_false] at h
  rcases h with rfl | ⟨c, -, h⟩ | rfl
  · decide
  · exact control_escape h
  · decide

theorem control_isNumChar {d : Char} (h : isNumChar d = true) : 0x20 ≤ d.toNat := by
  simp only [isNumChar, Bool.or_eq_true, beq_iff_eq] at h
  rcases h with ((((h | rfl) | rfl) | rfl) | rfl) | rfl
  · rw [Char.isDigit, Bool.and_eq_true, decide_eq_true_eq] at h
    exact le_trans (by decide) (UInt32.le_iff_toNat_le.mp h.1)
  all_goals decide

/-- The compact text has no control character: in particular it is one line. -/
theorem control_render {t : Tree} {d : Char} (h : d ∈ render t) : 0x20 ≤ d.toNat := by
  induction t using Tree.ind with
  | null => exact control_of_all (by decide) h
  | bool b => cases b <;> exact control_of_all (by decide) h
  | num l => exact control_isNumChar (l.all_isNumChar d h)
  | str s => exact control_renderStr h
  | arr ts ih =>
    rw [render, renderItems_eq_map, List.mem_cons, List.mem_append, List.mem_singleton] at h
    rcases h with rfl | h | rfl
    · decide
    · rcases mem_sepBy h with rfl | ⟨p, hp, hd⟩
      · decide
      · obtain ⟨t, ht, rfl⟩ := List.mem_map.mp hp
        exact ih t ht hd
    · decide
  | obj ms ih =>
    rw [render, renderMembers_eq_map, List.mem_cons, List.mem_append, List.mem_singleton] at h
    rcases h with rfl | h | rfl
    · decide
    · rcases mem_sepBy h with rfl | ⟨p, hp, hd⟩
      · decide
      · obtain ⟨m, hm, rfl⟩ := List.mem_map.mp hp
        rw [List.mem_append, List.mem_cons] at hd
        rcases hd with hd | rfl | hd
        · exact control_renderStr hd
        · decide
        · exact ih m hm hd
    · decide

/-- No byte of the compact text is a control character. -/
theorem control_utf8_render {t : Tree} {b : UInt8} (hb : b ∈ utf8 (render t)) : 0x20 ≤ b.toNat := by
  by_contra hlt
  obtain ⟨c, hc, hcb⟩ := exists_of_mem_utf8 (by omega) hb
  have := control_render hc
  omega

theorem newline_notMem_render (t : Tree) : 0x0A ∉ utf8 (render t) :=
  fun h => absurd (control_utf8_render h) (by decide)

/-! ### Reading -/

/-- `ws = *( %x20 / %x09 / %x0A / %x0D )`. -/
def isWs (c : Char) : Bool := c == ' ' || c == '\t' || c == '\n' || c == '\r'

/-- Drop whitespace. -/
def skipWs (s : Str) : Str := s.dropWhile isWs

/-- Drop whitespace and the character `c`. -/
def token (c : Char) (s : Str) : Option Str :=
  match skipWs s with
  | [] => none
  | d :: s => if d = c then some s else none

/-- Drop a fixed text. -/
def expect : Str → Str → Option Str
  | [], s => some s
  | _ :: _, [] => none
  | c :: cs, d :: s => if c = d then expect cs s else none

/-- Read a number: the longest run of number characters, which must be a literal. -/
def parseNumber (s : Str) : Option (Tree × Str) :=
  if h : number (s.takeWhile isNumChar) = some [] then
    some (.num ⟨s.takeWhile isNumChar, h⟩, s.dropWhile isNumChar)
  else none

mutual

/-- Read a value. -/
def parseValue : ℕ → Str → Option (Tree × Str)
  | 0, _ => none
  | n + 1, s =>
    match skipWs s with
    | [] => none
    | c :: s =>
      if c = '"' then (parseChars s.length s).map fun (cs, s) => (.str cs, s)
      else if c = '[' then
        match token ']' s with
        | some s => some (.arr [], s)
        | none => (parseItems n s).map fun (ts, s) => (.arr ts, s)
      else if c = '{' then
        match token '}' s with
        | some s => some (.obj [], s)
        | none => (parseMembers n s).map fun (ms, s) => (.obj ms, s)
      else if c = 'n' then (expect ['u', 'l', 'l'] s).map fun s => (.null, s)
      else if c = 't' then (expect ['r', 'u', 'e'] s).map fun s => (.bool true, s)
      else if c = 'f' then (expect ['a', 'l', 's', 'e'] s).map fun s => (.bool false, s)
      else parseNumber (c :: s)

/-- Read the items of a non-empty array, and the bracket. -/
def parseItems : ℕ → Str → Option (List Tree × Str)
  | 0, _ => none
  | n + 1, s =>
    (parseValue n s).bind fun (t, s) =>
      match token ',' s with
      | some s => (parseItems n s).map fun (ts, s) => (t :: ts, s)
      | none => (token ']' s).map fun s => ([t], s)

/-- Read the members of a non-empty object, and the brace. -/
def parseMembers : ℕ → Str → Option (List (Str × Tree) × Str)
  | 0, _ => none
  | n + 1, s =>
    (token '"' s).bind fun s =>
      (parseChars s.length s).bind fun (k, s) =>
        (token ':' s).bind fun s =>
          (parseValue n s).bind fun (t, s) =>
            match token ',' s with
            | some s => (parseMembers n s).map fun (ms, s) => ((k, t) :: ms, s)
            | none => (token '}' s).map fun s => ([(k, t)], s)

end

/-- The tree of a text. -/
def parse (s : Str) : Option Tree :=
  (parseValue (s.length + 1) s).bind fun (t, r) => if skipWs r = [] then some t else none

/-! ### Reading inverts rendering -/

theorem skipWs_cons {c : Char} (hc : isWs c = false) (s : Str) : skipWs (c :: s) = c :: s := by
  rw [skipWs, List.dropWhile_cons_of_neg (by simp [hc])]

theorem token_self {c : Char} (hc : isWs c = false) (s : Str) : token c (c :: s) = some s := by
  rw [token, skipWs_cons hc]
  exact if_pos rfl

theorem token_ne {c d : Char} (hd : isWs d = false) (h : d ≠ c) (s : Str) : token c (d :: s) = none := by
  rw [token, skipWs_cons hd]
  exact if_neg h

/-- The text goes on with no number character. -/
def NumEnd (s : Str) : Prop := ∀ c r, s = c :: r → isNumChar c = false

theorem numEnd_nil : NumEnd [] := fun _ _ h => by cases h

theorem numEnd_cons {c : Char} (hc : isNumChar c = false) (s : Str) : NumEnd (c :: s) := fun d r h => by
  cases h
  exact hc

theorem dropWhile_numEnd {r : Str} (hr : NumEnd r) : r.dropWhile isNumChar = r := by
  cases r with
  | nil => rfl
  | cons c r => exact List.dropWhile_cons_of_neg (by simp [hr c r rfl])

theorem takeWhile_numEnd {r : Str} (hr : NumEnd r) : r.takeWhile isNumChar = [] := by
  cases r with
  | nil => rfl
  | cons c r => exact List.takeWhile_cons_of_neg (by simp [hr c r rfl])

theorem parseNumber_literal (l : Literal) {r : Str} (hr : NumEnd r) : parseNumber (l.1 ++ r) = some (.num l, r) := by
  have htake : (l.1 ++ r).takeWhile isNumChar = l.1 := by
    rw [List.takeWhile_append_of_pos l.all_isNumChar, takeWhile_numEnd hr, List.append_nil]
  have hdrop : (l.1 ++ r).dropWhile isNumChar = r := by
    rw [List.dropWhile_append_of_pos l.all_isNumChar, dropWhile_numEnd hr]
  unfold parseNumber
  simp only [htake, hdrop, l.2, dif_pos]

/-- The first character of a number is none but a minus or a digit. -/
theorem ne_of_numHead {c d : Char} (hc : c = '-' ∨ c.isDigit = true) (hd : d.isDigit = false) (hd' : d ≠ '-') :
    c ≠ d := by
  rintro rfl
  rcases hc with hc | hc
  · exact hd' hc
  · rw [hd] at hc
    cases hc

theorem isWs_of_numHead {c : Char} (hc : c = '-' ∨ c.isDigit = true) : isWs c = false := by
  have h₁ := ne_of_numHead (d := ' ') hc (by decide) (by decide)
  have h₂ := ne_of_numHead (d := '\t') hc (by decide) (by decide)
  have h₃ := ne_of_numHead (d := '\n') hc (by decide) (by decide)
  have h₄ := ne_of_numHead (d := '\r') hc (by decide) (by decide)
  simp [isWs, h₁, h₂, h₃, h₄]

/-- A text begins with a character that is neither whitespace nor a closing bracket. -/
theorem render_head (t : Tree) : ∃ c s, render t = c :: s ∧ isWs c = false ∧ c ≠ ']' := by
  cases t with
  | null => exact ⟨_, _, rfl, by decide, by decide⟩
  | bool b => cases b <;> exact ⟨_, _, rfl, by decide, by decide⟩
  | num l =>
    obtain ⟨c, s, hl, hc⟩ := l.head
    exact ⟨c, s, hl, isWs_of_numHead hc, ne_of_numHead hc (by decide) (by decide)⟩
  | str s => exact ⟨_, _, rfl, by decide, by decide⟩
  | arr ts => exact ⟨_, _, rfl, by decide, by decide⟩
  | obj ms => exact ⟨_, _, rfl, by decide, by decide⟩

theorem render_length_pos (t : Tree) : 0 < (render t).length := by
  obtain ⟨c, s, h, -, -⟩ := render_head t
  rw [h]
  exact Nat.succ_pos _

theorem parseValue_number {n : ℕ} {c : Char} {s : Str} (hc : c = '-' ∨ c.isDigit = true) :
    parseValue (n + 1) (c :: s) = parseNumber (c :: s) := by
  have hq := ne_of_numHead (d := '"') hc (by decide) (by decide)
  have ha := ne_of_numHead (d := '[') hc (by decide) (by decide)
  have ho := ne_of_numHead (d := '{') hc (by decide) (by decide)
  have hn := ne_of_numHead (d := 'n') hc (by decide) (by decide)
  have ht := ne_of_numHead (d := 't') hc (by decide) (by decide)
  have hf := ne_of_numHead (d := 'f') hc (by decide) (by decide)
  rw [parseValue, skipWs_cons (isWs_of_numHead hc)]
  simp only [hq, ha, ho, hn, ht, hf, if_false]

/-- The text of an array after its opening bracket, and what follows it. -/
def itemsText (ts : List Tree) (r : Str) : Str := sepBy ',' (renderItems ts) ++ ']' :: r

/-- The text of an object after its opening brace, and what follows it. -/
def membersText (ms : List (Str × Tree)) (r : Str) : Str := sepBy ',' (renderMembers ms) ++ '}' :: r

theorem itemsText_singleton (t : Tree) (r : Str) : itemsText [t] r = render t ++ ']' :: r := rfl

theorem itemsText_cons (t u : Tree) (ts : List Tree) (r : Str) :
    itemsText (t :: u :: ts) r = render t ++ ',' :: itemsText (u :: ts) r := by
  simp [itemsText, renderItems, sepBy_cons_cons]

theorem membersText_singleton (k : Str) (t : Tree) (r : Str) :
    membersText [(k, t)] r = renderStr k ++ ':' :: (render t ++ '}' :: r) := by
  simp [membersText, renderMembers]

theorem membersText_cons (k : Str) (t : Tree) (m : Str × Tree) (ms : List (Str × Tree)) (r : Str) :
    membersText ((k, t) :: m :: ms) r = renderStr k ++ ':' :: (render t ++ ',' :: membersText (m :: ms) r) := by
  simp [membersText, renderMembers, sepBy_cons_cons]

/-- The reader, with fuel `n`, reads back what is written in at most `n` characters. -/
structure Reads (n : ℕ) : Prop where
  /-- Values. -/
  value : ∀ t r, NumEnd r → (render t).length ≤ n → parseValue n (render t ++ r) = some (t, r)
  /-- The items of a non-empty array. -/
  items : ∀ t ts r, (itemsText (t :: ts) []).length ≤ n → parseItems n (itemsText (t :: ts) r) = some (t :: ts, r)
  /-- The members of a non-empty object. -/
  members : ∀ m ms r, (membersText (m :: ms) []).length ≤ n →
    parseMembers n (membersText (m :: ms) r) = some (m :: ms, r)

theorem Reads.zero : Reads 0 where
  value t _ _ h := absurd h (by have := render_length_pos t; omega)
  items _ _ _ h := by simp [itemsText] at h
  members _ _ _ h := by simp [membersText] at h

theorem parseChars_renderStr (s r : Str) :
    parseChars (s.flatMap escape ++ '"' :: r).length (s.flatMap escape ++ '"' :: r) = some (s, r) :=
  parseChars_escape s r _ (by simp)

theorem Reads.value_succ {n : ℕ} (ih : Reads n) (t : Tree) (r : Str) (hr : NumEnd r)
    (hn : (render t).length ≤ n + 1) : parseValue (n + 1) (render t ++ r) = some (t, r) := by
  cases t with
  | null => rfl
  | bool b => cases b <;> rfl
  | num l =>
    obtain ⟨c, s, hl, hc⟩ := l.head
    show parseValue (n + 1) (l.1 ++ r) = _
    have hp := parseNumber_literal l hr
    rw [hl, List.cons_append] at hp ⊢
    rw [parseValue_number hc, hp]
  | str s =>
    have htext : render (.str s) ++ r = '"' :: (s.flatMap escape ++ '"' :: r) := by simp [render, renderStr]
    rw [htext, parseValue, skipWs_cons (by decide)]
    simp only [if_true, parseChars_renderStr, Option.map_some]
  | arr ts =>
    have htext : render (.arr ts) ++ r = '[' :: itemsText ts r := by simp [render, itemsText]
    have hlen : (render (.arr ts)).length = (itemsText ts []).length + 1 := by simp [render, itemsText]
    rw [htext, parseValue, skipWs_cons (by decide)]
    cases ts with
    | nil => rfl
    | cons t ts =>
      obtain ⟨c, s, hc, hw, hb⟩ := render_head t
      have htok : token ']' (itemsText (t :: ts) r) = none := by
        cases ts with
        | nil => rw [itemsText_singleton, hc]; exact token_ne hw hb _
        | cons u ts => rw [itemsText_cons, hc]; exact token_ne hw hb _
      simp only [htok, ih.items t ts r (by omega)]
      rfl
  | obj ms =>
    have htext : render (.obj ms) ++ r = '{' :: membersText ms r := by simp [render, membersText]
    have hlen : (render (.obj ms)).length = (membersText ms []).length + 1 := by simp [render, membersText]
    rw [htext, parseValue, skipWs_cons (by decide)]
    cases ms with
    | nil => rfl
    | cons m ms =>
      have htok : token '}' (membersText (m :: ms) r) = none := by
        obtain ⟨k, t⟩ := m
        cases ms with
        | nil => rw [membersText_singleton]; exact token_ne (by decide) (by decide) _
        | cons m ms => rw [membersText_cons]; exact token_ne (by decide) (by decide) _
      simp only [htok, ih.members m ms r (by omega)]
      rfl

theorem Reads.items_succ {n : ℕ} (ih : Reads n) (t : Tree) (ts : List Tree) (r : Str)
    (hn : (itemsText (t :: ts) []).length ≤ n + 1) :
    parseItems (n + 1) (itemsText (t :: ts) r) = some (t :: ts, r) := by
  cases ts with
  | nil =>
    rw [itemsText_singleton] at hn ⊢
    simp only [List.length_append, List.length_cons] at hn
    rw [parseItems, ih.value t _ (numEnd_cons (by decide) r) (by omega), Option.bind_some]
    simp only [token_ne (c := ',') (d := ']') (by decide) (by decide), token_self (c := ']') (by decide), Option.map_some]
  | cons u ts =>
    rw [itemsText_cons] at hn ⊢
    simp only [List.length_append, List.length_cons] at hn
    rw [parseItems, ih.value t _ (numEnd_cons (by decide) _) (by omega), Option.bind_some]
    simp only [token_self (c := ',') (by decide), ih.items u ts r (by omega), Option.map_some]

theorem Reads.members_succ {n : ℕ} (ih : Reads n) (m : Str × Tree) (ms : List (Str × Tree)) (r : Str)
    (hn : (membersText (m :: ms) []).length ≤ n + 1) :
    parseMembers (n + 1) (membersText (m :: ms) r) = some (m :: ms, r) := by
  obtain ⟨k, t⟩ := m
  -- the name and the colon
  have hname : ∀ s, parseMembers (n + 1) (renderStr k ++ ':' :: s) = (parseValue n s).bind fun (t, s) =>
      match token ',' s with
      | some s => (parseMembers n s).map fun (ms, s) => ((k, t) :: ms, s)
      | none => (token '}' s).map fun s => ([(k, t)], s) := by
    intro s
    have htext : renderStr k ++ ':' :: s = '"' :: (k.flatMap escape ++ '"' :: ':' :: s) := by simp [renderStr]
    rw [htext, parseMembers, token_self (by decide), Option.bind_some, parseChars_renderStr, Option.bind_some]
    simp only [token_self (c := ':') (by decide), Option.bind_some]
  cases ms with
  | nil =>
    rw [membersText_singleton] at hn ⊢
    simp only [List.length_append, List.length_cons] at hn
    rw [hname, ih.value t _ (numEnd_cons (by decide) r) (by omega), Option.bind_some]
    simp only [token_ne (c := ',') (d := '}') (by decide) (by decide), token_self (c := '}') (by decide), Option.map_some]
  | cons m ms =>
    rw [membersText_cons] at hn ⊢
    simp only [List.length_append, List.length_cons] at hn
    rw [hname, ih.value t _ (numEnd_cons (by decide) _) (by omega), Option.bind_some]
    simp only [token_self (c := ',') (by decide), ih.members m ms r (by omega), Option.map_some]

theorem reads : ∀ n, Reads n
  | 0 => Reads.zero
  | n + 1 => ⟨(reads n).value_succ, (reads n).items_succ, (reads n).members_succ⟩

/-- **Reading inverts rendering.** -/
theorem parse_render (t : Tree) : parse (render t) = some t := by
  have h := (reads ((render t).length + 1)).value t [] numEnd_nil (Nat.le_succ _)
  rw [List.append_nil] at h
  rw [parse, h]
  rfl

/-- Different trees have different texts. -/
theorem render_injective : Function.Injective render := by
  intro t u h
  have := congrArg parse h
  rwa [parse_render, parse_render, Option.some.injEq] at this

/-! ### A text cut short -/

/-- What a reader reads, it reads whatever follows. -/
def Local {α : Type} (f : Str → Option (α × Str)) : Prop :=
  ∀ s x r q, f s = some (x, r) → f (s ++ q) = some (x, r ++ q)

theorem local_hex4 : Local hex4 := by
  rintro (_ | ⟨a, _ | ⟨b, _ | ⟨c, _ | ⟨d, s⟩⟩⟩⟩) x r q h <;> try cases h
  simp only [hex4, List.cons_append] at h ⊢
  split at h
  · cases h
    simp_all
  · cases h

theorem local_lowSurrogate (u : ℕ) : Local (lowSurrogate u) := by
  intro s x r q h
  unfold lowSurrogate at h
  split at h
  · rename_i s'
    rw [Option.bind_eq_some_iff] at h
    obtain ⟨⟨l, s''⟩, hl, h⟩ := h
    rw [List.cons_append, List.cons_append, lowSurrogate, local_hex4 s' l s'' q hl, Option.bind_some]
    simp only at h ⊢
    split_ifs at h ⊢
    rw [Option.some.injEq, Prod.mk.injEq] at h ⊢
    exact ⟨h.1, by rw [h.2]⟩
  · cases h

theorem local_unicodeEscape : Local unicodeEscape := by
  intro s x r q h
  rw [unicodeEscape, Option.bind_eq_some_iff] at h
  obtain ⟨⟨u, s'⟩, hu, h⟩ := h
  rw [unicodeEscape, local_hex4 s u s' q hu, Option.bind_some]
  simp only at h ⊢
  split_ifs at h ⊢
  · cases h
    rfl
  · exact local_lowSurrogate u s' x r q h

/-- What the letter after a backslash says: a character, or that digits follow, or nothing. -/
theorem escaped_cases (e : Char) :
    (∃ c, ∀ s, escaped (e :: s) = some (c, s)) ∨ (∀ s, escaped (e :: s) = unicodeEscape s) ∨
      ∀ s, escaped (e :: s) = none := by
  by_cases he : e ∈ ['"', '\\', '/', 'b', 't', 'n', 'f', 'r']
  · left
    simp only [List.mem_cons, List.not_mem_nil, or_false] at he
    rcases he with rfl | rfl | rfl | rfl | rfl | rfl | rfl | rfl <;> exact ⟨_, fun s => rfl⟩
  · right
    simp only [List.mem_cons, List.not_mem_nil, or_false, not_or] at he
    obtain ⟨h₁, h₂, h₃, h₄, h₅, h₆, h₇, h₈⟩ := he
    have hrest : ∀ s, escaped (e :: s) = if e = 'u' then unicodeEscape s else none := by
      intro s
      rw [escaped, if_neg h₁, if_neg h₂, if_neg h₃, if_neg h₄, if_neg h₅, if_neg h₆, if_neg h₇, if_neg h₈]
    by_cases hu : e = 'u'
    · exact .inl fun s => (hrest s).trans (if_pos hu)
    · exact .inr fun s => (hrest s).trans (if_neg hu)

theorem local_escaped : Local escaped := by
  rintro (_ | ⟨e, s⟩) x r q h
  · cases h
  · rw [List.cons_append]
    rcases escaped_cases e with ⟨c, hc⟩ | hu | hnone
    · rw [hc] at h ⊢
      cases h
      rfl
    · rw [hu] at h ⊢
      exact local_unicodeEscape s x r q h
    · rw [hnone] at h
      cases h

theorem local_oneChar : Local oneChar := by
  rintro (_ | ⟨c, s⟩) x r q h
  · cases h
  · simp only [oneChar, List.cons_append] at h ⊢
    split_ifs at h ⊢
    · cases h; rfl
    · rw [Option.map_eq_some_iff] at h
      obtain ⟨⟨c', s'⟩, hc, h⟩ := h
      cases h
      rw [local_escaped s c' s' q hc, Option.map_some]
    · cases h; rfl

theorem parseChars_append {n m : ℕ} {s cs r : Str} (q : Str) (h : parseChars n s = some (cs, r)) (hm : n ≤ m) :
    parseChars m (s ++ q) = some (cs, r ++ q) := by
  induction n generalizing m s cs r with
  | zero => cases h
  | succ n ih =>
    obtain ⟨m, rfl⟩ : ∃ k, m = k + 1 := ⟨m - 1, by omega⟩
    rw [parseChars] at h ⊢
    cases ho : oneChar s with
    | none => rw [ho] at h; cases h
    | some x =>
      obtain ⟨_ | c, s'⟩ := x
      · rw [ho] at h
        rw [local_oneChar s _ _ q ho]
        cases h
        rfl
      · rw [ho] at h
        rw [local_oneChar s _ _ q ho]
        simp only [Option.map_eq_some_iff, Prod.mk.injEq] at h
        obtain ⟨⟨cs', r'⟩, hc, rfl, rfl⟩ := h
        have hm' : n ≤ m := by omega
        simp only [ih hc hm', Option.map_some]

theorem skipWs_append {s : Str} {c : Char} {r : Str} (q : Str) (h : skipWs s = c :: r) :
    skipWs (s ++ q) = c :: (r ++ q) := by
  unfold skipWs at h ⊢
  rw [List.dropWhile_append, h]
  rfl

theorem token_append {c : Char} {s r : Str} (q : Str) (h : token c s = some r) : token c (s ++ q) = some (r ++ q) := by
  unfold token at h ⊢
  split at h
  · cases h
  · rename_i d s' hs
    rw [skipWs_append q hs]
    simp only
    split_ifs at h ⊢
    cases h
    rfl

theorem token_none_append {c : Char} {s : Str} (q : Str) (h : token c s = none) (hs : skipWs s ≠ []) :
    token c (s ++ q) = none := by
  unfold token at h ⊢
  split at h
  · contradiction
  · rename_i d s' hs'
    rw [skipWs_append q hs']
    simp only
    split_ifs at h ⊢
    rfl

theorem skipWs_ne_nil_of_token {c : Char} {s r : Str} (h : token c s = some r) : skipWs s ≠ [] := by
  intro hs
  rw [token, hs] at h
  cases h

theorem expect_append {cs s r : Str} (q : Str) (h : expect cs s = some r) : expect cs (s ++ q) = some (r ++ q) := by
  induction cs generalizing s with
  | nil => cases h; rfl
  | cons c cs ih =>
    cases s with
    | nil => cases h
    | cons d s =>
      rw [expect] at h
      rw [List.cons_append, expect]
      split_ifs at h ⊢
      exact ih h

/-- A name is read whatever follows. -/
theorem parseName_append {cs s r : Str} {t t' : Tree} (q : Str)
    (h : ((expect cs s).map fun s => (t', s)) = some (t, r)) :
    ((expect cs (s ++ q)).map fun s => (t', s)) = some (t, r ++ q) := by
  obtain ⟨s₁, he, h⟩ := Option.map_eq_some_iff.mp h
  cases h
  rw [expect_append q he, Option.map_some]

theorem parseNumber_append {s r : Str} {t : Tree} (q : Str) (h : parseNumber s = some (t, r)) (hr : r ≠ []) :
    parseNumber (s ++ q) = some (t, r ++ q) := by
  unfold parseNumber at h
  split_ifs at h with hn
  rw [Option.some.injEq, Prod.mk.injEq] at h
  obtain ⟨rfl, rfl⟩ := h
  have hend : NumEnd (s.dropWhile isNumChar ++ q) := by
    intro c t ht
    rcases hd : s.dropWhile isNumChar with _ | ⟨d, u⟩
    · exact absurd hd hr
    · rw [hd, List.cons_append] at ht
      cases ht
      have := List.head?_dropWhile_not isNumChar s
      rw [hd] at this
      simpa using this
  have := parseNumber_literal ⟨s.takeWhile isNumChar, hn⟩ hend
  rwa [← List.append_assoc, List.takeWhile_append_dropWhile] at this

theorem skipWs_ne_nil_of_parseValue {n : ℕ} {s : Str} {x : Tree × Str} (h : parseValue n s = some x) :
    skipWs s ≠ [] := by
  intro hs
  cases n with
  | zero => cases h
  | succ n => rw [parseValue, hs] at h; cases h

theorem skipWs_ne_nil_of_parseItems {n : ℕ} {s : Str} {x : List Tree × Str} (h : parseItems n s = some x) :
    skipWs s ≠ [] := by
  cases n with
  | zero => cases h
  | succ n =>
    rw [parseItems, Option.bind_eq_some_iff] at h
    obtain ⟨_, hv, -⟩ := h
    exact skipWs_ne_nil_of_parseValue hv

theorem skipWs_ne_nil_of_parseMembers {n : ℕ} {s : Str} {x : List (Str × Tree) × Str}
    (h : parseMembers n s = some x) : skipWs s ≠ [] := by
  cases n with
  | zero => cases h
  | succ n =>
    rw [parseMembers, Option.bind_eq_some_iff] at h
    obtain ⟨_, ht, -⟩ := h
    exact skipWs_ne_nil_of_token ht

/-- What is read with fuel `n` is read with more fuel, whatever follows: only a
number at the very end may go on. -/
structure Extends (n : ℕ) : Prop where
  /-- Values. -/
  value : ∀ m s t r q, n ≤ m → parseValue n s = some (t, r) → (r ≠ [] ∨ ∀ l, t ≠ .num l) →
    parseValue m (s ++ q) = some (t, r ++ q)
  /-- The items of an array. -/
  items : ∀ m s ts r q, n ≤ m → parseItems n s = some (ts, r) → parseItems m (s ++ q) = some (ts, r ++ q)
  /-- The members of an object. -/
  members : ∀ m s ms r q, n ≤ m → parseMembers n s = some (ms, r) → parseMembers m (s ++ q) = some (ms, r ++ q)

theorem Extends.zero : Extends 0 where
  value _ _ _ _ _ _ h := by cases h
  items _ _ _ _ _ _ h := by cases h
  members _ _ _ _ _ _ h := by cases h

theorem Extends.value_succ {n : ℕ} (ih : Extends n) (m : ℕ) (s : Str) (t : Tree) (r q : Str) (hm : n + 1 ≤ m)
    (h : parseValue (n + 1) s = some (t, r)) (hr : r ≠ [] ∨ ∀ l, t ≠ .num l) :
    parseValue m (s ++ q) = some (t, r ++ q) := by
  obtain ⟨m, rfl⟩ : ∃ k, m = k + 1 := ⟨m - 1, by omega⟩
  rw [parseValue] at h ⊢
  rcases hs : skipWs s with _ | ⟨c, s'⟩
  · rw [hs] at h
    cases h
  · rw [hs] at h
    rw [skipWs_append q hs]
    simp only at h ⊢
    split_ifs at h ⊢ with hq ha ho hn ht hf
    · -- a string
      rw [Option.map_eq_some_iff] at h
      obtain ⟨⟨cs, s₁⟩, hc, h⟩ := h
      cases h
      rw [parseChars_append q hc (by simp), Option.map_some]
    · -- an array, empty or not
      cases htok : token ']' s' with
      | some s₁ =>
        rw [htok] at h
        rw [token_append q htok]
        cases h
        rfl
      | none =>
        rw [htok] at h
        simp only [Option.map_eq_some_iff] at h
        obtain ⟨⟨ts, s₁⟩, hi, h⟩ := h
        cases h
        rw [token_none_append q htok (skipWs_ne_nil_of_parseItems hi)]
        simp only [ih.items m s' ts s₁ q (by omega) hi, Option.map_some]
    · -- an object, empty or not
      cases htok : token '}' s' with
      | some s₁ =>
        rw [htok] at h
        rw [token_append q htok]
        cases h
        rfl
      | none =>
        rw [htok] at h
        simp only [Option.map_eq_some_iff] at h
        obtain ⟨⟨ms, s₁⟩, hi, h⟩ := h
        cases h
        rw [token_none_append q htok (skipWs_ne_nil_of_parseMembers hi)]
        simp only [ih.members m s' ms s₁ q (by omega) hi, Option.map_some]
    · -- the three names
      exact parseName_append q h
    · exact parseName_append q h
    · exact parseName_append q h
    · -- a number
      have hne : r ≠ [] := by
        rcases hr with hr | hr
        · exact hr
        · unfold parseNumber at h
          split_ifs at h with hl
          cases h
          exact absurd rfl (hr _)
      exact parseNumber_append q h hne

theorem Extends.items_succ {n : ℕ} (ih : Extends n) (m : ℕ) (s : Str) (ts : List Tree) (r q : Str) (hm : n + 1 ≤ m)
    (h : parseItems (n + 1) s = some (ts, r)) : parseItems m (s ++ q) = some (ts, r ++ q) := by
  obtain ⟨m, rfl⟩ : ∃ k, m = k + 1 := ⟨m - 1, by omega⟩
  rw [parseItems, Option.bind_eq_some_iff] at h
  obtain ⟨⟨t, s₁⟩, hv, h⟩ := h
  simp only at h
  have hs₁ : s₁ ≠ [] := by
    rintro rfl
    cases h
  rw [parseItems, ih.value m s t s₁ q (by omega) hv (.inl hs₁), Option.bind_some]
  cases htok : token ',' s₁ with
  | some s₂ =>
    rw [htok] at h
    simp only [Option.map_eq_some_iff] at h
    obtain ⟨⟨ts', s₃⟩, hi, h⟩ := h
    cases h
    simp only [token_append q htok, ih.items m s₂ ts' s₃ q (by omega) hi, Option.map_some]
  | none =>
    rw [htok] at h
    simp only [Option.map_eq_some_iff] at h
    obtain ⟨s₂, hb, h⟩ := h
    cases h
    simp only [token_none_append q htok (skipWs_ne_nil_of_token hb), token_append q hb, Option.map_some]

theorem Extends.members_succ {n : ℕ} (ih : Extends n) (m : ℕ) (s : Str) (ms : List (Str × Tree)) (r q : Str)
    (hm : n + 1 ≤ m) (h : parseMembers (n + 1) s = some (ms, r)) : parseMembers m (s ++ q) = some (ms, r ++ q) := by
  obtain ⟨m, rfl⟩ : ∃ k, m = k + 1 := ⟨m - 1, by omega⟩
  rw [parseMembers, Option.bind_eq_some_iff] at h
  obtain ⟨s₁, hq, h⟩ := h
  rw [Option.bind_eq_some_iff] at h
  obtain ⟨⟨k, s₂⟩, hk, h⟩ := h
  simp only [Option.bind_eq_some_iff] at h
  obtain ⟨s₃, hc, ⟨t, s₄⟩, hv, h⟩ := h
  simp only at h
  have hs₄ : s₄ ≠ [] := by
    rintro rfl
    cases h
  rw [parseMembers, token_append q hq, Option.bind_some, parseChars_append q hk (by simp), Option.bind_some]
  simp only [token_append q hc, Option.bind_some, ih.value m s₃ t s₄ q (by omega) hv (.inl hs₄)]
  cases htok : token ',' s₄ with
  | some s₅ =>
    rw [htok] at h
    simp only [Option.map_eq_some_iff] at h
    obtain ⟨⟨ms', s₆⟩, hi, h⟩ := h
    cases h
    simp only [token_append q htok, ih.members m s₅ ms' s₆ q (by omega) hi, Option.map_some]
  | none =>
    rw [htok] at h
    simp only [Option.map_eq_some_iff] at h
    obtain ⟨s₅, hb, h⟩ := h
    cases h
    simp only [token_none_append q htok (skipWs_ne_nil_of_token hb), token_append q hb, Option.map_some]

theorem extends_all : ∀ n, Extends n
  | 0 => Extends.zero
  | n + 1 => ⟨(extends_all n).value_succ, (extends_all n).items_succ, (extends_all n).members_succ⟩

/-- What begins as an object reads as an object. -/
theorem not_num_of_brace {n : ℕ} {s r : Str} {t : Tree} (h : parseValue n ('{' :: s) = some (t, r)) :
    ∀ l, t ≠ .num l := by
  rintro l rfl
  cases n with
  | zero => cases h
  | succ n =>
    rw [parseValue, skipWs_cons (by decide)] at h
    simp only [show ('{' : Char) ≠ '"' by decide, show ('{' : Char) ≠ '[' by decide, if_false, if_true] at h
    split at h
    · cases h
    · rw [Option.map_eq_some_iff] at h
      obtain ⟨_, -, h⟩ := h
      cases h

/-- **A text cut short is rejected**: no proper prefix of an object's text is a text. -/
theorem parse_cut {ms : List (Str × Tree)} {p : Str} (hp : p <+: render (.obj ms)) (hne : p ≠ render (.obj ms)) :
    parse p = none := by
  by_contra hsome
  obtain ⟨t, ht⟩ := Option.ne_none_iff_exists'.mp hsome
  obtain ⟨q, hq⟩ := hp
  rw [parse, Option.bind_eq_some_iff] at ht
  obtain ⟨⟨t', r⟩, hv, ht⟩ := ht
  simp only at ht
  split_ifs at ht with hr
  cases p with
  | nil => cases hv
  | cons c s =>
    obtain rfl : c = '{' := by
      have := congrArg List.head? hq
      simpa [render] using this
    -- the prefix would be read the same inside the whole text, which has nothing left over
    have hnum := not_num_of_brace hv
    have hwhole := (extends_all _).value ((render (.obj ms)).length + 1) _ t' r q
      (by rw [← hq, List.length_append]; omega) hv (.inr hnum)
    have hread := (reads ((render (.obj ms)).length + 1)).value (.obj ms) [] numEnd_nil (Nat.le_succ _)
    rw [List.append_nil] at hread
    rw [hq, hread, Option.some.injEq, Prod.mk.injEq] at hwhole
    have hqnil := (List.append_eq_nil_iff.mp hwhole.2.symm).2
    rw [hqnil, List.append_nil] at hq
    exact hne hq

end AcpCore.Json
