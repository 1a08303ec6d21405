import Mathlib.Algebra.Order.Field.Rat
import Mathlib.Tactic

/-!
# JSON

Texts and what they mean. A text is given by a grammar; a parser reads every text of it
(`Derives.reads`), so no text has two meanings (`IsText.unique`), nor have bytes that hold one in
UTF-8 (`Encodes.unique`).
-/

namespace MacMiniDump

/-- A value. Strings are sequences of UTF-16 code units, as an escape may stand for half of a
pair. -/
inductive Json
  | null
  | bool (b : Bool)
  | number (q : ℚ)
  | string (units : List UInt16)
  | array (elements : List Json)
  | object (members : List (List UInt16 × Json))

namespace Json

def blanks : List Char := [' ', '\t', '\n', '\r']

/-- White space, if any. -/
def Blank (t : List Char) : Prop := ∀ c ∈ t, c ∈ blanks

def Digits (t : List Char) : Prop := t ≠ [] ∧ ∀ c ∈ t, c.isDigit

def digitsValue (t : List Char) : ℕ := Nat.ofDigitChars 10 t 0

/-- Only zero itself starts with a zero. -/
def IsInt (t : List Char) (n : ℕ) : Prop :=
  Digits t ∧ (t.head? = some '0' → t = ['0']) ∧ digitsValue t = n

inductive IsFrac : List Char → ℚ → Prop
  | none : IsFrac [] 0
  | some {ds : List Char} : Digits ds →
      IsFrac ('.' :: ds) (digitsValue ds / 10 ^ ds.length)

inductive IsSigned : List Char → ℤ → Prop
  | plain {ds : List Char} : Digits ds → IsSigned ds (digitsValue ds)
  | plus {ds : List Char} : Digits ds → IsSigned ('+' :: ds) (digitsValue ds)
  | minus {ds : List Char} : Digits ds → IsSigned ('-' :: ds) (-digitsValue ds)

inductive IsExp : List Char → ℤ → Prop
  | none : IsExp [] 0
  | some {e : Char} {t : List Char} {n : ℤ} : e ∈ ['e', 'E'] → IsSigned t n → IsExp (e :: t) n

inductive IsUnsigned : List Char → ℚ → Prop
  | mk {i f e : List Char} {n : ℕ} {q : ℚ} {k : ℤ} :
      IsInt i n → IsFrac f q → IsExp e k → IsUnsigned (i ++ f ++ e) ((n + q) * 10 ^ k)

inductive IsNumber : List Char → ℚ → Prop
  | plain {t : List Char} {q : ℚ} : IsUnsigned t q → IsNumber t q
  | minus {t : List Char} {q : ℚ} : IsUnsigned t q → IsNumber ('-' :: t) (-q)

def utf16 (c : Char) : List UInt16 :=
  if c.toNat < 0x10000 then [UInt16.ofNat c.toNat]
  else [UInt16.ofNat (0xD800 + (c.toNat - 0x10000) / 0x400),
    UInt16.ofNat (0xDC00 + (c.toNat - 0x10000) % 0x400)]

/-- What an escape of one character stands for. -/
def escape : Char → Option UInt16
  | '"' => some 0x22
  | '\\' => some 0x5C
  | '/' => some 0x2F
  | 'b' => some 0x08
  | 'f' => some 0x0C
  | 'n' => some 0x0A
  | 'r' => some 0x0D
  | 't' => some 0x09
  | _ => none

def hexDigit (c : Char) : Option ℕ :=
  if '0' ≤ c ∧ c ≤ '9' then some (c.toNat - '0'.toNat)
  else if 'a' ≤ c ∧ c ≤ 'f' then some (c.toNat - 'a'.toNat + 10)
  else if 'A' ≤ c ∧ c ≤ 'F' then some (c.toNat - 'A'.toNat + 10)
  else none

def hex4 (a b c d : Char) : Option UInt16 :=
  match hexDigit a, hexDigit b, hexDigit c, hexDigit d with
  | some a, some b, some c, some d => some (UInt16.ofNat (((a * 16 + b) * 16 + c) * 16 + d))
  | _, _, _, _ => none

/-- What is between the quotation marks of a string. -/
inductive IsChars : List Char → List UInt16 → Prop
  | nil : IsChars [] []
  | unescaped {c : Char} {t : List Char} {u : List UInt16} :
      ' ' ≤ c → c ≠ '"' → c ≠ '\\' → IsChars t u → IsChars (c :: t) (utf16 c ++ u)
  | escaped {c : Char} {x : UInt16} {t : List Char} {u : List UInt16} :
      escape c = some x → IsChars t u → IsChars ('\\' :: c :: t) (x :: u)
  | unicode {a b c d : Char} {x : UInt16} {t : List Char} {u : List UInt16} :
      hex4 a b c d = some x → IsChars t u → IsChars ('\\' :: 'u' :: a :: b :: c :: d :: t) (x :: u)

inductive IsName : List Char → Json → Prop
  | null : IsName ['n', 'u', 'l', 'l'] .null
  | true : IsName ['t', 'r', 'u', 'e'] (.bool Bool.true)
  | false : IsName ['f', 'a', 'l', 's', 'e'] (.bool Bool.false)

/-! ## Grammar -/

inductive Node
  | value (v : Json)
  | elements (vs : List Json)
  | members (ms : List (List UInt16 × Json))

/-- The grammar: the text is one of the value, or of the elements or the members of one. -/
inductive Derives : Node → List Char → Prop
  | name {t : List Char} {v : Json} : IsName t v → Derives (.value v) t
  | number {t : List Char} {q : ℚ} : IsNumber t q → Derives (.value (.number q)) t
  | string {t : List Char} {u : List UInt16} :
      IsChars t u → Derives (.value (.string u)) ('"' :: t ++ ['"'])
  | emptyArray {w : List Char} : Blank w → Derives (.value (.array [])) ('[' :: w ++ [']'])
  | array {t : List Char} {vs : List Json} :
      Derives (.elements vs) t → Derives (.value (.array vs)) ('[' :: t ++ [']'])
  | emptyObject {w : List Char} :
      Blank w → Derives (.value (.object [])) ('\x7b' :: w ++ ['\x7d'])
  | object {t : List Char} {ms : List (List UInt16 × Json)} :
      Derives (.members ms) t → Derives (.value (.object ms)) ('\x7b' :: t ++ ['\x7d'])
  | element {w t w' : List Char} {v : Json} :
      Blank w → Derives (.value v) t → Blank w' → Derives (.elements [v]) (w ++ t ++ w')
  | elements {w t w' ts : List Char} {v : Json} {vs : List Json} :
      Blank w → Derives (.value v) t → Blank w' → Derives (.elements vs) ts →
        Derives (.elements (v :: vs)) (w ++ t ++ w' ++ ',' :: ts)
  | member {w k w₁ w₂ t w' : List Char} {u : List UInt16} {v : Json} :
      Blank w → IsChars k u → Blank w₁ → Blank w₂ → Derives (.value v) t → Blank w' →
        Derives (.members [(u, v)]) (w ++ '"' :: k ++ '"' :: w₁ ++ ':' :: w₂ ++ t ++ w')
  | members {w k w₁ w₂ t w' ts : List Char} {u : List UInt16} {v : Json}
      {ms : List (List UInt16 × Json)} :
      Blank w → IsChars k u → Blank w₁ → Blank w₂ → Derives (.value v) t → Blank w' →
        Derives (.members ms) ts →
        Derives (.members ((u, v) :: ms))
          (w ++ '"' :: k ++ '"' :: w₁ ++ ':' :: w₂ ++ t ++ w' ++ ',' :: ts)

/-- A text is a value, with white space around it. -/
def IsText (s : List Char) (v : Json) : Prop :=
  ∃ w t w', Blank w ∧ Derives (.value v) t ∧ Blank w' ∧ s = w ++ t ++ w'

/-- The bytes are a text, in UTF-8. -/
def Encodes (bytes : List UInt8) (v : Json) : Prop :=
  ∃ s : String, s.toByteArray.data.toList = bytes ∧ IsText s.toList v

/-! ## Parser -/

def skipBlank (t : List Char) : List Char := t.dropWhile (· ∈ blanks)

def readDigits (t : List Char) : Option (List Char × List Char) :=
  if t.takeWhile Char.isDigit = [] then none
  else some (t.takeWhile Char.isDigit, t.dropWhile Char.isDigit)

def readInt (t : List Char) : Option (ℕ × List Char) :=
  match readDigits t with
  | some (ds, t) =>
    if ds.head? = some '0' ∧ ds ≠ ['0'] then none else some (digitsValue ds, t)
  | none => none

def readFrac (t : List Char) : Option (ℚ × List Char) :=
  if t.head? = some '.' then
    match readDigits t.tail with
    | some (ds, t) => some (digitsValue ds / 10 ^ ds.length, t)
    | none => none
  else some (0, t)

def readSigned (t : List Char) : Option (ℤ × List Char) :=
  if t.head? = some '+' then (readDigits t.tail).map fun (ds, t) => (digitsValue ds, t)
  else if t.head? = some '-' then (readDigits t.tail).map fun (ds, t) => (-digitsValue ds, t)
  else (readDigits t).map fun (ds, t) => (digitsValue ds, t)

def readExp (t : List Char) : Option (ℤ × List Char) :=
  if t.head? = some 'e' ∨ t.head? = some 'E' then readSigned t.tail else some (0, t)

def readUnsigned (t : List Char) : Option (ℚ × List Char) := do
  let (n, t) ← readInt t
  let (q, t) ← readFrac t
  let (k, t) ← readExp t
  return ((n + q) * 10 ^ k, t)

def readNumber (t : List Char) : Option (ℚ × List Char) :=
  if t.head? = some '-' then (readUnsigned t.tail).map fun (q, t) => (-q, t)
  else readUnsigned t

/-- Up to the quotation mark that ends the string. -/
def readChars : List Char → Option (List UInt16 × List Char)
  | [] => none
  | '"' :: t => some ([], t)
  | '\\' :: 'u' :: a :: b :: c :: d :: t =>
    match hex4 a b c d, readChars t with
    | some x, some (u, t) => some (x :: u, t)
    | _, _ => none
  | '\\' :: c :: t =>
    match escape c, readChars t with
    | some x, some (u, t) => some (x :: u, t)
    | _, _ => none
  | c :: t =>
    if ' ' ≤ c ∧ c ≠ '\\' then (readChars t).map fun (u, t) => (utf16 c ++ u, t) else none

def readName (name : List Char) (v : Json) (t : List Char) : Option (Json × List Char) :=
  if name <+: t then some (v, t.drop name.length) else none

mutual

def readValue : ℕ → List Char → Option (Json × List Char)
  | 0, _ => none
  | n + 1, t =>
    if t.head? = some '"' then (readChars t.tail).map fun (u, t) => (.string u, t)
    else if t.head? = some '[' then
      if (skipBlank t.tail).head? = some ']' then some (.array [], (skipBlank t.tail).tail)
      else (readElements n t.tail).map fun (vs, t) => (.array vs, t)
    else if t.head? = some '\x7b' then
      if (skipBlank t.tail).head? = some '\x7d' then some (.object [], (skipBlank t.tail).tail)
      else (readMembers n t.tail).map fun (ms, t) => (.object ms, t)
    else if t.head? = some 'n' then readName ['n', 'u', 'l', 'l'] .null t
    else if t.head? = some 't' then readName ['t', 'r', 'u', 'e'] (.bool true) t
    else if t.head? = some 'f' then readName ['f', 'a', 'l', 's', 'e'] (.bool false) t
    else (readNumber t).map fun (q, t) => (.number q, t)

/-- The elements of an array, up to its end. -/
def readElements : ℕ → List Char → Option (List Json × List Char)
  | 0, _ => none
  | n + 1, t => do
    let (v, t) ← readValue n (skipBlank t)
    let t := skipBlank t
    if t.head? = some ']' then return ([v], t.tail)
    else if t.head? = some ',' then
      let (vs, t) ← readElements n t.tail
      return (v :: vs, t)
    else none

/-- The members of an object, up to its end. -/
def readMembers : ℕ → List Char → Option (List (List UInt16 × Json) × List Char)
  | 0, _ => none
  | n + 1, t => do
    let t := skipBlank t
    if t.head? = some '"' then
      let (u, t) ← readChars t.tail
      let t := skipBlank t
      if t.head? = some ':' then
        let (v, t) ← readValue n (skipBlank t.tail)
        let t := skipBlank t
        if t.head? = some '\x7d' then return ([(u, v)], t.tail)
        else if t.head? = some ',' then
          let (ms, t) ← readMembers n t.tail
          return ((u, v) :: ms, t)
        else none
      else none
    else none

end

def parse (s : List Char) : Option Json :=
  match readValue s.length (skipBlank s) with
  | some (v, t) => if skipBlank t = [] then some v else none
  | none => none

@[simp] theorem mem_blanks {c : Char} : c ∈ blanks ↔ c = ' ' ∨ c = '\t' ∨ c = '\n' ∨ c = '\r' := by
  simp [blanks]

/-- A number ends here. -/
def NumberStops (t : List Char) : Prop :=
  ∀ c ∈ t.head?, c.isDigit = false ∧ c ∉ ['.', 'e', 'E']

section Tokens

variable {t rest : List Char}

theorem skipBlank_append {w : List Char} (hw : Blank w) (ht : ∀ c ∈ t.head?, c ∉ blanks) :
    skipBlank (w ++ t) = t := by
  unfold skipBlank
  rw [List.dropWhile_append_of_pos fun c hc => decide_eq_true (hw c hc)]
  rcases t with _ | ⟨c, t⟩
  · rfl
  · exact List.dropWhile_cons_of_neg (by simpa using ht c rfl)

theorem skipBlank_blank {w : List Char} (hw : Blank w) : skipBlank w = [] := by
  have hskip := skipBlank_append (t := []) hw (by simp)
  rwa [List.append_nil] at hskip

theorem NumberStops.blank_append {w : List Char} (hw : Blank w) (ht : NumberStops t) :
    NumberStops (w ++ t) := by
  have hall : ∀ c ∈ blanks, c.isDigit = false ∧ c ∉ ['.', 'e', 'E'] := by simp
  rcases w with _ | ⟨b, w⟩
  · exact ht
  · rintro _ ⟨⟩
    exact hall b (hw b List.mem_cons_self)

theorem numberStops_nil : NumberStops [] := by
  rintro _ ⟨⟩

/-- What comes behind a value in an array or an object ends a number. -/
theorem numberStops_cons {c : Char} (hc : c ∈ [',', ']', '\x7d']) : NumberStops (c :: t) := by
  have hall : ∀ c ∈ [',', ']', '\x7d'], c.isDigit = false ∧ c ∉ ['.', 'e', 'E'] := by simp
  rintro _ ⟨⟩
  exact hall c hc

theorem Digits.head {ds : List Char} (h : Digits ds) :
    ∃ c ds', ds = c :: ds' ∧ c.isDigit = true := by
  obtain ⟨c, ds', rfl⟩ := List.exists_cons_of_ne_nil h.1
  exact ⟨c, ds', rfl, h.2 c List.mem_cons_self⟩

theorem readDigits_append {ds : List Char} (h : Digits ds)
    (hrest : ∀ c ∈ rest.head?, c.isDigit = false) : readDigits (ds ++ rest) = some (ds, rest) := by
  have htake : rest.takeWhile Char.isDigit = [] ∧ rest.dropWhile Char.isDigit = rest := by
    rcases rest with _ | ⟨c, rest⟩
    · exact ⟨rfl, rfl⟩
    · have hc : ¬ c.isDigit = true := by simp [hrest c rfl]
      exact ⟨List.takeWhile_cons_of_neg hc, List.dropWhile_cons_of_neg hc⟩
  unfold readDigits
  rw [List.takeWhile_append_of_pos h.2, List.dropWhile_append_of_pos h.2, htake.1, htake.2,
    List.append_nil, if_neg h.1]

theorem readInt_append {n : ℕ} (h : IsInt t n) (hrest : ∀ c ∈ rest.head?, c.isDigit = false) :
    readInt (t ++ rest) = some (n, rest) := by
  obtain ⟨hds, hzero, rfl⟩ := h
  unfold readInt
  rw [readDigits_append hds hrest]
  exact if_neg fun ⟨hhead, hne⟩ => hne (hzero hhead)

theorem readFrac_append {q : ℚ} (h : IsFrac t q)
    (hrest : ∀ c ∈ rest.head?, c.isDigit = false ∧ c ≠ '.') :
    readFrac (t ++ rest) = some (q, rest) := by
  cases h with
  | none =>
    have hdot : rest.head? ≠ some '.' := fun h => (hrest '.' h).2 rfl
    exact if_neg hdot
  | some hds =>
    unfold readFrac
    rw [List.cons_append, if_pos List.head?_cons, List.tail_cons,
      readDigits_append hds fun c hc => (hrest c hc).1]

theorem readSigned_append {n : ℤ} (h : IsSigned t n)
    (hrest : ∀ c ∈ rest.head?, c.isDigit = false) : readSigned (t ++ rest) = some (n, rest) := by
  unfold readSigned
  cases h with
  | plain hds =>
    obtain ⟨c, ds', rfl, hc⟩ := hds.head
    have hsign : c ≠ '+' ∧ c ≠ '-' := by
      constructor <;> rintro rfl <;> simp at hc
    rw [if_neg (by simpa using hsign.1), if_neg (by simpa using hsign.2),
      readDigits_append hds hrest]
    rfl
  | plus hds =>
    rw [List.cons_append, if_pos List.head?_cons, List.tail_cons, readDigits_append hds hrest]
    rfl
  | minus hds =>
    rw [List.cons_append, if_neg (by simp), if_pos List.head?_cons, List.tail_cons,
      readDigits_append hds hrest]
    rfl

theorem readExp_append {k : ℤ} (h : IsExp t k) (hrest : NumberStops rest) :
    readExp (t ++ rest) = some (k, rest) := by
  unfold readExp
  cases h with
  | none =>
    refine if_neg ?_
    rintro (h | h)
    · exact (hrest _ h).2 (by simp)
    · exact (hrest _ h).2 (by simp)
  | @some e t _ he hs =>
    have hor : (e :: t ++ rest).head? = some 'e' ∨ (e :: t ++ rest).head? = some 'E' := by
      simpa using he
    rw [if_pos hor, List.cons_append, List.tail_cons]
    exact readSigned_append hs fun c hc => (hrest c hc).1

theorem readUnsigned_append {q : ℚ} (h : IsUnsigned t q) (hrest : NumberStops rest) :
    readUnsigned (t ++ rest) = some (q, rest) := by
  obtain ⟨hi, hf, he⟩ := h
  rename_i i f e n q k
  have hexp : ∀ c ∈ (e ++ rest).head?, c.isDigit = false ∧ c ≠ '.' := by
    cases he with
    | none => exact fun c hc => ⟨(hrest c hc).1, fun h => (hrest c hc).2 (by simp [h])⟩
    | some he =>
      rintro _ ⟨⟩
      rcases List.mem_pair.1 he with rfl | rfl <;> simp
  have hfrac : ∀ c ∈ (f ++ (e ++ rest)).head?, c.isDigit = false := by
    cases hf with
    | none => exact fun c hc => (hexp c hc).1
    | some _ =>
      rintro _ ⟨⟩
      rfl
  unfold readUnsigned
  rw [List.append_assoc, List.append_assoc, readInt_append hi hfrac]
  simp only [Option.bind_eq_bind, Option.bind_some, readFrac_append hf hexp,
    readExp_append he hrest]
  rfl

theorem IsUnsigned.head {q : ℚ} (h : IsUnsigned t q) : ∃ c t', t = c :: t' ∧ c.isDigit = true := by
  obtain ⟨hi, -, -⟩ := h
  obtain ⟨c, ds', rfl, hc⟩ := hi.1.head
  exact ⟨c, _, rfl, hc⟩

theorem IsNumber.head {q : ℚ} (h : IsNumber t q) :
    ∃ c t', t = c :: t' ∧ (c = '-' ∨ c.isDigit = true) := by
  cases h with
  | plain h =>
    obtain ⟨c, t', rfl, hc⟩ := h.head
    exact ⟨c, t', rfl, .inr hc⟩
  | minus h => exact ⟨'-', _, rfl, .inl rfl⟩

theorem readNumber_append {q : ℚ} (h : IsNumber t q) (hrest : NumberStops rest) :
    readNumber (t ++ rest) = some (q, rest) := by
  unfold readNumber
  cases h with
  | plain h =>
    obtain ⟨c, t', rfl, hc⟩ := h.head
    have hminus : c ≠ '-' := by
      rintro rfl
      simp at hc
    rw [if_neg (by simpa using hminus)]
    exact readUnsigned_append h hrest
  | minus h =>
    rw [List.cons_append, if_pos List.head?_cons, List.tail_cons, readUnsigned_append h hrest]
    rfl

theorem readChars_append {u : List UInt16} (h : IsChars t u) :
    readChars (t ++ '"' :: rest) = some (u, rest) := by
  induction h with
  | nil => simp [readChars]
  | unescaped hc hq hb _ ih => simp [readChars, hb, hc, ih]
  | @escaped c _ _ _ hx _ ih =>
    have hu : c ≠ 'u' := by
      rintro rfl
      cases hx
    simp [readChars, hu, hx, ih]
  | unicode hx _ ih => simp [readChars, hx, ih]

theorem readName_append (name : List Char) (v : Json) :
    readName name v (name ++ rest) = some (v, rest) := by
  unfold readName
  rw [if_pos (List.prefix_append name rest), List.drop_left]

end Tokens

/-- A value starts with a character of its own. -/
theorem Derives.value_head {v : Json} {t : List Char} (h : Derives (.value v) t) :
    ∃ c t', t = c :: t' ∧ c ∉ blanks ∧ c ≠ ']' := by
  cases h with
  | number h =>
    obtain ⟨c, t', rfl, hc⟩ := h.head
    refine ⟨c, t', rfl, ?_, ?_⟩
    · intro hmem
      have hall : ∀ c ∈ blanks, ¬ (c = '-' ∨ c.isDigit = true) := by simp
      exact hall c hmem hc
    · rintro rfl
      simp at hc
  | name h => cases h <;> exact ⟨_, _, rfl, by simp⟩
  | string => exact ⟨_, _, rfl, by simp⟩
  | emptyArray => exact ⟨_, _, rfl, by simp⟩
  | array => exact ⟨_, _, rfl, by simp⟩
  | emptyObject => exact ⟨_, _, rfl, by simp⟩
  | object => exact ⟨_, _, rfl, by simp⟩

theorem skipBlank_value {w t : List Char} {v : Json} (hw : Blank w) (h : Derives (.value v) t)
    (rest : List Char) : skipBlank (w ++ (t ++ rest)) = t ++ rest := by
  obtain ⟨c, t', rfl, hc, -⟩ := h.value_head
  refine skipBlank_append hw ?_
  rintro _ ⟨⟩
  exact hc

theorem skipBlank_cons {w : List Char} (hw : Blank w) {c : Char} (hc : c ∉ blanks)
    (rest : List Char) : skipBlank (w ++ c :: rest) = c :: rest := by
  refine skipBlank_append hw ?_
  rintro _ ⟨⟩
  exact hc

/-- The elements of an array do not start with its end. -/
theorem Derives.head_elements {vs : List Json} {t : List Char} (h : Derives (.elements vs) t)
    (rest : List Char) : (skipBlank (t ++ rest)).head? ≠ some ']' := by
  cases h with
  | element hw hv _ =>
    rw [List.append_assoc, List.append_assoc, skipBlank_value hw hv]
    obtain ⟨c, t', rfl, -, hc⟩ := hv.value_head
    simpa using hc
  | elements hw hv _ _ =>
    rw [List.append_assoc, List.append_assoc, List.append_assoc, skipBlank_value hw hv]
    obtain ⟨c, t', rfl, -, hc⟩ := hv.value_head
    simpa using hc

theorem Derives.head_members {ms : List (List UInt16 × Json)} {t : List Char}
    (h : Derives (.members ms) t) (rest : List Char) :
    (skipBlank (t ++ rest)).head? ≠ some '\x7d' := by
  cases h with
  | member hw =>
    simp only [List.append_assoc, List.cons_append]
    rw [skipBlank_cons hw (by simp)]
    simp
  | members hw =>
    simp only [List.append_assoc, List.cons_append]
    rw [skipBlank_cons hw (by simp)]
    simp

/-- With enough fuel the parser reads the text and stops behind it. -/
def Reads : Node → List Char → Prop
  | .value v, t => ∀ n rest, t.length ≤ n → NumberStops rest →
    readValue n (t ++ rest) = some (v, rest)
  | .elements vs, t => ∀ n rest, t.length < n →
    readElements n (t ++ ']' :: rest) = some (vs, rest)
  | .members ms, t => ∀ n rest, t.length < n →
    readMembers n (t ++ '\x7d' :: rest) = some (ms, rest)

theorem readValue_name {t : List Char} {v : Json} (h : IsName t v) (n : ℕ) (rest : List Char) :
    readValue (n + 1) (t ++ rest) = some (v, rest) := by
  cases h with
  | null =>
    simp only [readValue, List.cons_append, List.head?_cons, Option.some.injEq]
    exact readName_append ['n', 'u', 'l', 'l'] .null
  | true =>
    simp only [readValue, List.cons_append, List.head?_cons, Option.some.injEq]
    exact readName_append ['t', 'r', 'u', 'e'] _
  | false =>
    simp only [readValue, List.cons_append, List.head?_cons, Option.some.injEq]
    exact readName_append ['f', 'a', 'l', 's', 'e'] _

theorem readValue_number {t : List Char} {q : ℚ} (h : IsNumber t q) (n : ℕ) {rest : List Char}
    (hrest : NumberStops rest) : readValue (n + 1) (t ++ rest) = some (.number q, rest) := by
  obtain ⟨c, t', rfl, hc⟩ := h.head
  have hne : ∀ x ∈ ['"', '[', '\x7b', 'n', 't', 'f'], c ≠ x := by
    rintro x hx rfl
    have hall : ∀ c ∈ ['"', '[', '\x7b', 'n', 't', 'f'], ¬ (c = '-' ∨ c.isDigit = true) := by
      simp
    exact hall c hx hc
  simp only [List.forall_mem_cons] at hne
  obtain ⟨hquote, hbracket, hbrace, hn, ht, hf, -⟩ := hne
  have hread := readNumber_append h hrest
  simp only [List.cons_append] at hread ⊢
  simp [readValue, hquote, hbracket, hbrace, hn, ht, hf, hread]

namespace Reads

variable {w w' w₁ w₂ t ts k : List Char} {u : List UInt16} {v : Json} {vs : List Json}
  {ms : List (List UInt16 × Json)}

/-- A value is read up to the character that ends it, and the white space before that. -/
theorem before (h : Reads (.value v) t) (hw' : Blank w') {c : Char}
    (hc : c ∈ [',', ']', '\x7d']) {n : ℕ} (hn : t.length ≤ n) (rest : List Char) :
    readValue n (t ++ (w' ++ c :: rest)) = some (v, w' ++ c :: rest) :=
  h n _ hn ((numberStops_cons hc).blank_append hw')

theorem array (hd : Derives (.elements vs) t) (h : Reads (.elements vs) t) :
    Reads (.value (.array vs)) ('[' :: t ++ [']']) := by
  rintro (_ | n) rest hn _
  · cases hn
  · have hlen : t.length < n := by simpa using hn
    have hend := hd.head_elements (']' :: rest)
    simp [readValue, hend, h n rest hlen]

theorem object (hd : Derives (.members ms) t) (h : Reads (.members ms) t) :
    Reads (.value (.object ms)) ('\x7b' :: t ++ ['\x7d']) := by
  rintro (_ | n) rest hn _
  · cases hn
  · have hlen : t.length < n := by simpa using hn
    have hend := hd.head_members ('\x7d' :: rest)
    simp [readValue, hend, h n rest hlen]

theorem element (hw : Blank w) (hd : Derives (.value v) t) (hw' : Blank w')
    (h : Reads (.value v) t) : Reads (.elements [v]) (w ++ t ++ w') := by
  rintro (_ | n) rest hn
  · cases hn
  have hlen : t.length ≤ n := by
    simp only [List.length_append] at hn
    omega
  have hread := h.before hw' (c := ']') (by simp) hlen rest
  simp [readElements, skipBlank_value hw hd, hread, skipBlank_cons hw']

theorem elements (hw : Blank w) (hd : Derives (.value v) t) (hw' : Blank w')
    (h : Reads (.value v) t) (hs : Reads (.elements vs) ts) :
    Reads (.elements (v :: vs)) (w ++ t ++ w' ++ ',' :: ts) := by
  rintro (_ | n) rest hn
  · cases hn
  simp only [List.length_append, List.length_cons] at hn
  have hread := h.before hw' (c := ',') (n := n) (by simp) (by omega) (ts ++ ']' :: rest)
  have hreads := hs n rest (by omega)
  simp [readElements, skipBlank_value hw hd, hread, skipBlank_cons hw', hreads]

theorem member (hw : Blank w) (hk : IsChars k u) (hw₁ : Blank w₁) (hw₂ : Blank w₂)
    (hd : Derives (.value v) t) (hw' : Blank w') (h : Reads (.value v) t) :
    Reads (.members [(u, v)]) (w ++ '"' :: k ++ '"' :: w₁ ++ ':' :: w₂ ++ t ++ w') := by
  rintro (_ | n) rest hn
  · cases hn
  simp only [List.length_append, List.length_cons] at hn
  have hread := h.before hw' (c := '\x7d') (n := n) (by simp) (by omega) rest
  simp [readMembers, skipBlank_cons hw, readChars_append hk, skipBlank_cons hw₁,
    skipBlank_value hw₂ hd, hread, skipBlank_cons hw']

theorem members (hw : Blank w) (hk : IsChars k u) (hw₁ : Blank w₁) (hw₂ : Blank w₂)
    (hd : Derives (.value v) t) (hw' : Blank w') (h : Reads (.value v) t)
    (hs : Reads (.members ms) ts) :
    Reads (.members ((u, v) :: ms))
      (w ++ '"' :: k ++ '"' :: w₁ ++ ':' :: w₂ ++ t ++ w' ++ ',' :: ts) := by
  rintro (_ | n) rest hn
  · cases hn
  simp only [List.length_append, List.length_cons] at hn
  have hread := h.before hw' (c := ',') (n := n) (by simp) (by omega) (ts ++ '\x7d' :: rest)
  have hreads := hs n rest (by omega)
  simp [readMembers, skipBlank_cons hw, readChars_append hk, skipBlank_cons hw₁,
    skipBlank_value hw₂ hd, hread, skipBlank_cons hw', hreads]

end Reads

theorem Derives.reads {node : Node} {t : List Char} (h : Derives node t) : Reads node t := by
  induction h with
  | name h =>
    rintro (_ | n) rest hn _
    · cases h <;> cases hn
    · exact readValue_name h n rest
  | number h =>
    rintro (_ | n) rest hn hrest
    · obtain ⟨c, t', rfl, -⟩ := h.head
      cases hn
    · exact readValue_number h n hrest
  | string h =>
    rintro (_ | n) rest hn _
    · cases hn
    · simp [readValue, readChars_append h]
  | emptyArray hw =>
    rintro (_ | n) rest hn _
    · cases hn
    · simp [readValue, skipBlank_cons hw]
  | emptyObject hw =>
    rintro (_ | n) rest hn _
    · cases hn
    · simp [readValue, skipBlank_cons hw]
  | array h ih => exact .array h ih
  | object h ih => exact .object h ih
  | element hw hv hw' ih => exact .element hw hv hw' ih
  | elements hw hv hw' _ ih ihs => exact .elements hw hv hw' ih ihs
  | member hw hk hw₁ hw₂ hv hw' ih => exact .member hw hk hw₁ hw₂ hv hw' ih
  | members hw hk hw₁ hw₂ hv hw' _ ih ihs => exact .members hw hk hw₁ hw₂ hv hw' ih ihs

theorem IsText.parse_eq {s : List Char} {v : Json} (h : IsText s v) : parse s = some v := by
  obtain ⟨w, t, w', hw, ht, hw', rfl⟩ := h
  have hstop : NumberStops w' := by
    have h := numberStops_nil.blank_append hw'
    rwa [List.append_nil] at h
  have hlen : t.length ≤ (w ++ t ++ w').length := by
    simp only [List.length_append]
    omega
  unfold parse
  rw [List.append_assoc, skipBlank_value hw ht, ← List.append_assoc, ht.reads _ w' hlen hstop]
  exact if_pos (skipBlank_blank hw')

/-- A text has one meaning. -/
theorem IsText.unique {s : List Char} {v v' : Json} (h : IsText s v) (h' : IsText s v') : v = v' :=
  Option.some.inj (h.parse_eq.symm.trans h'.parse_eq)

theorem Encodes.unique {bytes : List UInt8} {v v' : Json} (h : Encodes bytes v)
    (h' : Encodes bytes v') : v = v' := by
  obtain ⟨s, rfl, h⟩ := h
  obtain ⟨s', hs, h'⟩ := h'
  have heq : s' = s :=
    String.toByteArray_inj.1 (ByteArray.ext (Array.toList_inj.1 hs))
  rw [heq] at h'
  exact h.unique h'

/-- Only zero has a decimal that starts with a zero. -/
theorem head_toDigits (n : ℕ) (h : (Nat.toDigits 10 n).head? = some '0') : n = 0 := by
  induction n using Nat.strong_induction_on with
  | _ n ih =>
    rw [Nat.toDigits_eq_if (by decide)] at h
    split_ifs at h with hlt
    · simpa using h
    · rw [List.head?_append_of_ne_nil _ Nat.toDigits_ne_nil] at h
      have hdiv := ih (n / 10) (by omega) h
      omega

/-- The decimal of a natural number is a number. -/
theorem isNumber_toDigits (n : ℕ) : IsNumber (Nat.toDigits 10 n) n := by
  have hint : IsInt (Nat.toDigits 10 n) n := by
    refine ⟨⟨Nat.toDigits_ne_nil, fun c hc => ?_⟩, fun hzero => ?_, Nat.ofDigitChars_ten_toDigits⟩
    · exact Nat.isDigit_of_mem_toDigits (by decide) (by decide) hc
    · rw [head_toDigits n hzero]
      rfl
  simpa using IsNumber.plain (IsUnsigned.mk hint .none .none)

/-- The code units of a string. -/
def units (t : List Char) : List UInt16 := t.flatMap utf16

theorem isChars_units :
    ∀ {t : List Char}, (∀ c ∈ t, ' ' ≤ c ∧ c ≠ '"' ∧ c ≠ '\\') → IsChars t (units t)
  | [], _ => .nil
  | c :: t, h => by
    obtain ⟨hc, ht⟩ := List.forall_mem_cons.1 h
    exact .unescaped hc.1 hc.2.1 hc.2.2 (isChars_units ht)

theorem blank_nil : Blank [] := by
  rintro _ ⟨⟩

theorem Derives.oneMember {k t : List Char} {u : List UInt16} {v : Json} (hk : IsChars k u)
    (h : Derives (.value v) t) :
    Derives (.value (.object [(u, v)])) ('\x7b' :: '"' :: k ++ '"' :: ':' :: t ++ ['\x7d']) := by
  simpa using Derives.object (.member blank_nil hk blank_nil blank_nil h blank_nil)

/-- Texts of values, separated by commas. -/
theorem Derives.separated {α : Type} {f : α → Json} {g : α → List Char}
    (h : ∀ a, Derives (.value (f a)) (g a)) :
    ∀ a as, Derives (.elements ((a :: as).map f)) (((a :: as).map g).intersperse [',']).flatten
  | a, [] => by simpa using Derives.element blank_nil (h a) blank_nil
  | a, a' :: as => by
    simpa using Derives.elements blank_nil (h a) blank_nil (Derives.separated h a' as)

theorem Derives.list {α : Type} {f : α → Json} {g : α → List Char}
    (h : ∀ a, Derives (.value (f a)) (g a)) (as : List α) :
    Derives (.value (.array (as.map f)))
      ('[' :: ((as.map g).intersperse [',']).flatten ++ [']']) := by
  rcases as with _ | ⟨a, as⟩
  · exact .emptyArray blank_nil
  · exact .array (.separated h a as)

theorem utf8EncodeChar_ascii {c : Char} (h : c.toNat < 0x80) :
    String.utf8EncodeChar c = [UInt8.ofNat c.toNat] :=
  if_pos (Nat.le_of_lt_succ h)

/-- Of a text in ASCII each character is a byte. -/
theorem encodes_ascii {t : List Char} {v : Json} (ht : IsText t v)
    (hascii : ∀ c ∈ t, c.toNat < 0x80) : Encodes (t.map fun c => UInt8.ofNat c.toNat) v := by
  refine ⟨String.ofList t, ?_, by rwa [String.toList_ofList]⟩
  have hbytes : t.flatMap String.utf8EncodeChar = t.map fun c => UInt8.ofNat c.toNat := by
    rw [List.map_eq_flatMap]
    exact List.flatMap_congr fun c hc => utf8EncodeChar_ascii (hascii c hc)
  rw [String.toByteArray_ofList, List.utf8Encode, hbytes, List.toList_data_toByteArray]

end Json

end MacMiniDump
