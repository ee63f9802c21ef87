/-
Texts of JSON values.

A value can be written in many ways: blanks may stand between tokens, and the two printers put
different ones there. Reading takes them all.

* `Json.Spells`: the grammar of the texts of a value, for values whose texts are all proper;
* `Json.readNumber_integerLiteral`, `Json.readString_stringLiteral`: numerals and literals are read
  back;
* `Json.parse?_of_spells`: **every text of a value is read as that value**;
* `Json.spells_compact`, `Json.spells_indented`: both printers write texts of their value.
-/
import EffectMachine.Json.Printer
import EffectMachine.Json.Reader
import Mathlib.Data.List.Basic
import Mathlib.Tactic.Common

namespace EffectMachine

namespace Json

/-! ### Numerals -/

lemma isDigit_digitChar {d : Nat} (h : d < 10) : isDigit (digitChar d) = true := by
  revert d
  decide

lemma digitValue_digitChar {d : Nat} (h : d < 10) : digitValue (digitChar d) = d := by
  revert d
  decide

lemma digitChar_eq_zero {d : Nat} (h : d < 10) : digitChar d = '0' ↔ d = 0 := by
  revert d
  decide

lemma ofDigits_concat (cs : List Char) (c : Char) :
    ofDigits (cs ++ [c]) = 10 * ofDigits cs + digitValue c := by
  simp [ofDigits]

lemma ofDigits_digits (n : Nat) : ofDigits (digits n) = n := by
  fun_induction digits n with
  | case1 n h => simp [ofDigits, digitValue_digitChar h]
  | case2 n h ih =>
      rw [ofDigits_concat, ih, digitValue_digitChar (Nat.mod_lt n (by omega))]
      omega

lemma isDigit_of_mem_digits {n : Nat} {c : Char} (h : c ∈ digits n) : isDigit c = true := by
  fun_induction digits n with
  | case1 n hn =>
      rw [List.mem_singleton.mp h]
      exact isDigit_digitChar hn
  | case2 n hn ih =>
      rcases List.mem_append.mp h with h | h
      · exact ih h
      · rw [List.mem_singleton.mp h]
        exact isDigit_digitChar (Nat.mod_lt n (by omega))

/-- A numeral starts with a digit, which is a zero only for the number zero. -/
lemma exists_digits (n : Nat) :
    ∃ c cs, digits n = c :: cs ∧ isDigit c = true ∧ (c = '0' → n = 0 ∧ cs = []) := by
  fun_induction digits n with
  | case1 n h => exact ⟨_, [], rfl, isDigit_digitChar h, fun hc => ⟨(digitChar_eq_zero h).mp hc, rfl⟩⟩
  | case2 n h ih =>
      obtain ⟨c, cs, heq, hc, hzero⟩ := ih
      refine ⟨c, cs ++ [digitChar (n % 10)], by simp [heq], hc, fun hc0 => ?_⟩
      have hquotient := (hzero hc0).1
      omega

/-- What can follow a value: the end of the text, a blank, or what divides or closes. -/
def Ends (rest : List Char) : Prop :=
  ∀ c ∈ rest.head?, isBlank c = true ∨ c = ',' ∨ c = ']' ∨ c = '}'

lemma Ends.nil : Ends [] := fun c hc => by cases hc

lemma Ends.cons {c : Char} (h : isBlank c = true ∨ c = ',' ∨ c = ']' ∨ c = '}')
    (rest : List Char) : Ends (c :: rest) := by
  intro d hd
  cases hd
  exact h

/-- Nothing that can follow a value goes on with a number. -/
lemma Ends.apart {c : Char} {rest : List Char} (h : Ends (c :: rest)) :
    isDigit c = false ∧ c ≠ '.' ∧ c ≠ 'e' ∧ c ≠ 'E' := by
  have hc := h c rfl
  simp only [isBlank, Bool.or_eq_true, decide_eq_true_eq] at hc
  rcases hc with (((rfl | rfl) | rfl) | rfl) | rfl | rfl | rfl <;> decide

lemma readFraction_of_ends {rest : List Char} (h : Ends rest) :
    readFraction rest = some ([], rest) := by
  cases rest with
  | nil => rfl
  | cons c rest =>
      unfold readFraction
      split
      · rename_i hcons
        exact absurd (List.cons.inj hcons).1 h.apart.2.1
      · rfl

lemma readExponent_of_ends {rest : List Char} (h : Ends rest) :
    readExponent rest = some ([], rest) := by
  cases rest with
  | nil => rfl
  | cons c rest =>
      obtain ⟨-, -, he, hE⟩ := h.apart
      simp [readExponent, he, hE]

lemma takeWhile_isDigit {ds rest : List Char} (hds : ∀ c ∈ ds, isDigit c = true)
    (h : Ends rest) :
    (ds ++ rest).takeWhile isDigit = ds ∧ (ds ++ rest).dropWhile isDigit = rest := by
  have hrest : rest.takeWhile isDigit = [] ∧ rest.dropWhile isDigit = rest := by
    cases rest with
    | nil => exact ⟨rfl, rfl⟩
    | cons c rest => simp [h.apart.1]
  rw [List.takeWhile_append_of_pos hds, List.dropWhile_append_of_pos hds, hrest.1, hrest.2,
    List.append_nil]
  exact ⟨rfl, rfl⟩

lemma readWhole_digits (n : Nat) {rest : List Char} (h : Ends rest) :
    readWhole (digits n ++ rest) = some (digits n, rest) := by
  obtain ⟨c, cs, heq, hc, hzero⟩ := exists_digits n
  by_cases hc0 : c = '0'
  · obtain ⟨-, rfl⟩ := hzero hc0
    rw [heq, hc0]
    rfl
  · have hdigits := takeWhile_isDigit (fun d hd => isDigit_of_mem_digits (n := n) hd) h
    have hread : readWhole (digits n ++ rest) = readDigits (digits n ++ rest) := by
      rw [heq, List.cons_append]
      unfold readWhole
      split
      · rename_i hcons
        exact absurd (List.cons.inj hcons).1 hc0
      · rfl
    rw [hread, readDigits, hdigits.1, hdigits.2, heq]

/-- **An integer is read back from its numeral.** -/
lemma readNumber_integerLiteral (n : Int) {rest : List Char} (h : Ends rest) :
    readNumber (integerLiteral n ++ rest) = some (integer n, rest) := by
  cases n with
  | ofNat n =>
      obtain ⟨c, cs, heq, hc, -⟩ := exists_digits n
      have hread : readNumber (digits n ++ rest) = readUnsigned false (digits n ++ rest) := by
        rw [heq, List.cons_append]
        unfold readNumber
        split
        · rename_i hcons
          rw [(List.cons.inj hcons).1] at hc
          cases hc
        · rfl
      rw [integerLiteral, hread, readUnsigned, readWhole_digits n h]
      simp [readFraction_of_ends h, readExponent_of_ends h, ofDigits_digits]
  | negSucc n =>
      have hne : digits (n + 1) ≠ ['0'] := fun heq => by
        have hvalue := ofDigits_digits (n + 1)
        rw [heq] at hvalue
        cases hvalue
      rw [integerLiteral, List.cons_append, readNumber, readUnsigned, readWhole_digits _ h]
      simp [readFraction_of_ends h, readExponent_of_ends h, ofDigits_digits, hne, Int.negSucc_eq]

/-- The numeral of an integer starts with a sign or a digit. -/
lemma exists_integerLiteral (n : Int) :
    ∃ c cs, integerLiteral n = c :: cs ∧ (c = '-' ∨ isDigit c = true) := by
  cases n with
  | ofNat n =>
      obtain ⟨c, cs, heq, hc, -⟩ := exists_digits n
      exact ⟨c, cs, heq, .inr hc⟩
  | negSucc n => exact ⟨'-', _, rfl, .inl rfl⟩

/-! ### String literals -/

section Literals

variable {a b c d : Char} {unit : Nat}

/-- The unit of an escape or a character, in front of those that follow. -/
def consUnit (unit : Nat) (x : List Nat × List Char) : List Nat × List Char :=
  (unit :: x.1, x.2)

lemma readString_short (h : escapeUnit? c = some unit) (cs : List Char) :
    readString ('\\' :: c :: cs) = (readString cs).map (consUnit unit) := by
  rw [readString, h]
  · cases readString cs <;> rfl
  · rintro a b c' d rest rfl -
    cases h

lemma readString_hex (h : hexUnit? a b c d = some unit) (cs : List Char) :
    readString ('\\' :: 'u' :: a :: b :: c :: d :: cs) = (readString cs).map (consUnit unit) := by
  rw [readString, h]
  cases readString cs <;> rfl

lemma readString_plain (hquote : c ≠ '"') (hback : c ≠ '\\') (hlow : 32 ≤ c.toNat)
    (cs : List Char) : readString (c :: cs) = (readString cs).map (consUnit c.toNat) := by
  rw [readString]
  · have hnot : ¬ (c.toNat < 32 || c = '\\') = true := by simp [hback, hlow]
    rw [if_neg hnot]
    cases readString cs <;> rfl
  · exact hquote
  · rintro a b c' d rest rfl -
    exact hback rfl
  · rintro c' rest rfl -
    exact hback rfl

lemma hexUnit?_hexDigit {n : Nat} (h : n < 32) :
    hexUnit? '0' '0' (hexDigit (n / 16)) (hexDigit (n % 16)) = some n := by
  revert n
  decide

/-- A character is read back from its escape, in front of whatever follows. -/
lemma readString_escape (c : Char) (cs : List Char) :
    readString (escape c ++ cs) = (readString cs).map (consUnit c.toNat) := by
  unfold escape
  split
  iterate 5 exact readString_short rfl cs
  rename_i hquote hback _ _ _
  split
  · rename_i hn
    rw [hn]
    exact readString_short rfl cs
  · split
    · rename_i hn
      rw [hn]
      exact readString_short rfl cs
    · split
      · rename_i hn
        exact readString_hex (hexUnit?_hexDigit hn) cs
      · exact readString_plain hquote hback (by omega) cs

end Literals

/-- **A literal is read back**, as the code points of its text. -/
lemma readString_stringLiteral (cs rest : List Char) :
    readString (cs.flatMap escape ++ '"' :: rest) = some (cs.map Char.toNat, rest) := by
  induction cs with
  | nil => rfl
  | cons c cs ih =>
      rw [List.flatMap_cons, List.append_assoc, readString_escape, ih]
      rfl

lemma not_surrogate (c : Char) :
    isHighSurrogate c.toNat = false ∧ isLowSurrogate c.toNat = false := by
  have hvalid : c.toNat < 0xD800 ∨ 0xDFFF < c.toNat ∧ c.toNat < 0x110000 := c.valid
  simp only [isHighSurrogate, isLowSurrogate, Bool.and_eq_false_iff, decide_eq_false_iff_not]
  omega

lemma pairUnits_toNat (cs : List Char) : pairUnits (cs.map Char.toNat) = some cs := by
  induction cs with
  | nil => rfl
  | cons c cs ih =>
      obtain ⟨hhigh, hlow⟩ := not_surrogate c
      cases cs with
      | nil => simp [pairUnits, hhigh, hlow]
      | cons d cs =>
          simp only [List.map_cons] at ih ⊢
          simp [pairUnits, hhigh, hlow, ih]

/-- A text is the text of its code points. -/
lemma textOfUnits_toNat (s : String) : textOfUnits (s.toList.map Char.toNat) = some s := by
  rw [textOfUnits, pairUnits_toNat, Option.map_some, String.ofList_toList]

/-! ### Texts of values -/

/-- Nothing but blanks. -/
def Blanks (b : List Char) : Prop := ∀ c ∈ b, isBlank c = true

mutual

/-- The characters are a text of the value, from its first token to its last. -/
inductive Spells : Json → List Char → Prop
  | null : Spells null ['n', 'u', 'l', 'l']
  | bool (b : Bool) : Spells (bool b) (boolLiteral b)
  | integer (n : Int) : Spells (integer n) (integerLiteral n)
  | string (s : String) : Spells (ofString s) (stringLiteral s)
  | noItems {b : List Char} : Blanks b → Spells (array []) ('[' :: (b ++ [']']))
  | items {js : List Json} {cs : List Char} : SpellsItems js cs →
      Spells (array js) ('[' :: (cs ++ [']']))
  | noMembers {b : List Char} : Blanks b → Spells (object []) ('{' :: (b ++ ['}']))
  | members {ms : List (Text × Json)} {cs : List Char} : SpellsMembers ms cs →
      Spells (object ms) ('{' :: (cs ++ ['}']))

/-- The characters are a text of the items of an array, of which there is one at least. -/
inductive SpellsItems : List Json → List Char → Prop
  | one {j : Json} {b cs b' : List Char} : Blanks b → Spells j cs → Blanks b' →
      SpellsItems [j] (b ++ (cs ++ b'))
  | more {j : Json} {js : List Json} {b cs b' ds : List Char} : Blanks b → Spells j cs →
      Blanks b' → SpellsItems js ds → SpellsItems (j :: js) (b ++ (cs ++ (b' ++ ',' :: ds)))

/-- The characters are a text of the members of an object, of which there is one at least. -/
inductive SpellsMembers : List (Text × Json) → List Char → Prop
  | one {key : String} {j : Json} {b b₁ b₂ cs b' : List Char} : Blanks b → Blanks b₁ →
      Blanks b₂ → Spells j cs → Blanks b' →
      SpellsMembers [(some key, j)] (b ++ (stringLiteral key ++ (b₁ ++ ':' :: (b₂ ++ (cs ++ b')))))
  | more {key : String} {j : Json} {ms : List (Text × Json)} {b b₁ b₂ cs b' ds : List Char} :
      Blanks b → Blanks b₁ → Blanks b₂ → Spells j cs → Blanks b' → SpellsMembers ms ds →
      SpellsMembers ((some key, j) :: ms)
        (b ++ (stringLiteral key ++ (b₁ ++ ':' :: (b₂ ++ (cs ++ (b' ++ ',' :: ds))))))

end

lemma skipBlanks_append {b : List Char} (h : Blanks b) (cs : List Char) :
    skipBlanks (b ++ cs) = skipBlanks cs := by
  rw [skipBlanks, List.dropWhile_append_of_pos h, skipBlanks]

lemma skipBlanks_cons {c : Char} (h : isBlank c = false) (cs : List Char) :
    skipBlanks (c :: cs) = c :: cs := by
  simp [skipBlanks, h]

lemma skipBlanks_skipBlanks (cs : List Char) : skipBlanks (skipBlanks cs) = skipBlanks cs := by
  induction cs with
  | nil => rfl
  | cons c cs ih =>
      cases hc : isBlank c with
      | true =>
          have hskip : skipBlanks (c :: cs) = skipBlanks cs := List.dropWhile_cons_of_pos hc
          rwa [hskip]
      | false => rw [skipBlanks_cons hc, skipBlanks_cons hc]

/-- A text of a value starts with a character that neither is a blank nor closes. -/
lemma Spells.exists_cons {j : Json} {cs : List Char} (h : Spells j cs) :
    ∃ c cs', cs = c :: cs' ∧ isBlank c = false ∧ c ≠ ']' := by
  cases h with
  | null => exact ⟨_, _, rfl, by decide, by decide⟩
  | bool b => cases b <;> exact ⟨_, _, rfl, by decide, by decide⟩
  | integer n =>
      obtain ⟨c, cs', heq, hc⟩ := exists_integerLiteral n
      refine ⟨c, cs', heq, ?_, ?_⟩
      · by_contra hblank
        simp only [isBlank, Bool.not_eq_false, Bool.or_eq_true, decide_eq_true_eq] at hblank
        rcases hblank with ((rfl | rfl) | rfl) | rfl <;> simp [isDigit] at hc
      · rintro rfl
        simp [isDigit] at hc
  | string s => exact ⟨_, _, rfl, by decide, by decide⟩
  | noItems => exact ⟨_, _, rfl, by decide, by decide⟩
  | items => exact ⟨_, _, rfl, by decide, by decide⟩
  | noMembers => exact ⟨_, _, rfl, by decide, by decide⟩
  | members => exact ⟨_, _, rfl, by decide, by decide⟩

lemma Spells.length_pos {j : Json} {cs : List Char} (h : Spells j cs) : 0 < cs.length := by
  obtain ⟨c, cs', rfl, -⟩ := h.exists_cons
  exact Nat.succ_pos _

lemma Spells.skipBlanks {j : Json} {b cs : List Char} (h : Spells j cs) (hb : Blanks b)
    (rest : List Char) : skipBlanks (b ++ (cs ++ rest)) = cs ++ rest := by
  obtain ⟨c, cs', rfl, hc, -⟩ := h.exists_cons
  rw [skipBlanks_append hb, List.cons_append, skipBlanks_cons hc]

/-- Blanks and what divides or closes can follow a value. -/
lemma Ends.blanks {b : List Char} (hb : Blanks b) {c : Char} (hc : c = ',' ∨ c = ']' ∨ c = '}')
    (rest : List Char) : Ends (b ++ c :: rest) := by
  cases b with
  | nil => exact .cons (.inr hc) rest
  | cons d b => exact .cons (.inl (hb d List.mem_cons_self)) _

/-! ### Reading -/

lemma readValue_skipBlanks (fuel : Nat) (cs : List Char) :
    readValue fuel (skipBlanks cs) = readValue fuel cs := by
  cases fuel with
  | zero => rw [readValue, readValue]
  | succ fuel => rw [readValue, readValue, skipBlanks_skipBlanks]

lemma readItems_skipBlanks (fuel : Nat) (cs : List Char) :
    readItems fuel (skipBlanks cs) = readItems fuel cs := by
  cases fuel with
  | zero => rw [readItems, readItems]
  | succ fuel => rw [readItems, readItems, readValue_skipBlanks]

lemma readMembers_skipBlanks (fuel : Nat) (cs : List Char) :
    readMembers fuel (skipBlanks cs) = readMembers fuel cs := by
  cases fuel with
  | zero => rw [readMembers, readMembers]
  | succ fuel => rw [readMembers, readMembers, skipBlanks_skipBlanks]

lemma readItems_one {fuel : Nat} {cs mid rest : List Char} {j : Json}
    (hvalue : readValue fuel cs = some (j, mid)) (hclose : skipBlanks mid = ']' :: rest) :
    readItems (fuel + 1) cs = some ([j], rest) := by
  simp [readItems, hvalue, hclose]

lemma readItems_more {fuel : Nat} {cs mid next rest : List Char} {j : Json} {js : List Json}
    (hvalue : readValue fuel cs = some (j, mid)) (hcomma : skipBlanks mid = ',' :: next)
    (hitems : readItems fuel next = some (js, rest)) :
    readItems (fuel + 1) cs = some (j :: js, rest) := by
  simp [readItems, hvalue, hcomma, hitems]

lemma readMembers_one {fuel : Nat} {cs key mid tail mid' rest : List Char} {units : List Nat}
    {j : Json} (hquote : skipBlanks cs = '"' :: key) (hkey : readString key = some (units, mid))
    (hcolon : skipBlanks mid = ':' :: tail) (hvalue : readValue fuel tail = some (j, mid'))
    (hclose : skipBlanks mid' = '}' :: rest) :
    readMembers (fuel + 1) cs = some ([(textOfUnits units, j)], rest) := by
  simp [readMembers, hquote, hkey, hcolon, hvalue, hclose]

lemma readMembers_more {fuel : Nat} {cs key mid tail mid' next rest : List Char}
    {units : List Nat} {j : Json} {ms : List (Text × Json)}
    (hquote : skipBlanks cs = '"' :: key) (hkey : readString key = some (units, mid))
    (hcolon : skipBlanks mid = ':' :: tail) (hvalue : readValue fuel tail = some (j, mid'))
    (hcomma : skipBlanks mid' = ',' :: next) (hmembers : readMembers fuel next = some (ms, rest)) :
    readMembers (fuel + 1) cs = some ((textOfUnits units, j) :: ms, rest) := by
  simp [readMembers, hquote, hkey, hcolon, hvalue, hcomma, hmembers]

/-- With the given fuel, texts that are short enough are read. Every character allows for two
calls. -/
structure ReadsBack (fuel : Nat) : Prop where
  value : ∀ {j cs}, Spells j cs → 2 * cs.length ≤ fuel → ∀ {b rest}, Blanks b → Ends rest →
    readValue fuel (b ++ (cs ++ rest)) = some (j, rest)
  items : ∀ {js cs}, SpellsItems js cs → 2 * cs.length + 1 ≤ fuel → ∀ rest,
    readItems fuel (cs ++ ']' :: rest) = some (js, rest)
  members : ∀ {ms cs}, SpellsMembers ms cs → 2 * cs.length + 1 ≤ fuel → ∀ rest,
    readMembers fuel (cs ++ '}' :: rest) = some (ms, rest)

/-- The first item of an array does not look like the end of the array. -/
lemma SpellsItems.exists_cons {js : List Json} {cs : List Char} (h : SpellsItems js cs)
    (rest : List Char) : ∃ c cs', Json.skipBlanks (cs ++ rest) = c :: cs' ∧ c ≠ ']' := by
  have hfirst : ∀ {j : Json} {b ds tail : List Char}, Blanks b → Spells j ds →
      ∃ c cs', Json.skipBlanks (b ++ (ds ++ tail)) = c :: cs' ∧ c ≠ ']' := by
    intro j b ds tail hb hj
    obtain ⟨c, cs', rfl, -, hne⟩ := hj.exists_cons
    exact ⟨c, cs' ++ tail, hj.skipBlanks hb tail, hne⟩
  cases h with
  | one hb hj _ =>
      rw [List.append_assoc, List.append_assoc]
      exact hfirst hb hj
  | more hb hj _ _ =>
      rw [List.append_assoc, List.append_assoc]
      exact hfirst hb hj

/-- The members of an object start with a key. -/
lemma SpellsMembers.exists_cons {ms : List (Text × Json)} {cs : List Char}
    (h : SpellsMembers ms cs) (rest : List Char) :
    ∃ cs', Json.skipBlanks (cs ++ rest) = '"' :: cs' := by
  have hfirst : ∀ {key : String} {b tail : List Char}, Blanks b →
      ∃ cs', Json.skipBlanks (b ++ (stringLiteral key ++ tail)) = '"' :: cs' := by
    intro key b tail hb
    rw [skipBlanks_append hb]
    exact ⟨_, skipBlanks_cons (by decide) _⟩
  cases h with
  | one hb =>
      rw [List.append_assoc, List.append_assoc]
      exact hfirst hb
  | more hb =>
      rw [List.append_assoc, List.append_assoc]
      exact hfirst hb

/-- A key is read back, with the blanks around it and the colon. -/
lemma readKey {b b₁ : List Char} (hb : Blanks b) (hb₁ : Blanks b₁) (key : String)
    (tail : List Char) :
    ∃ cs', skipBlanks (b ++ (stringLiteral key ++ (b₁ ++ ':' :: tail))) = '"' :: cs' ∧
      readString cs' = some (key.toList.map Char.toNat, b₁ ++ ':' :: tail) ∧
      skipBlanks (b₁ ++ ':' :: tail) = ':' :: tail := by
  refine ⟨key.toList.flatMap escape ++ '"' :: (b₁ ++ ':' :: tail), ?_,
    readString_stringLiteral _ _, ?_⟩
  · rw [skipBlanks_append hb, stringLiteral]
    simp only [List.cons_append, List.append_assoc, List.nil_append]
    exact skipBlanks_cons (by decide) _
  · rw [skipBlanks_append hb₁, skipBlanks_cons (by decide)]

namespace ReadsBack

variable {fuel : Nat}

lemma succ_items (h : ReadsBack fuel) {js : List Json} {cs : List Char} (hjs : SpellsItems js cs)
    (hfuel : 2 * cs.length + 1 ≤ fuel + 1) (rest : List Char) :
    readItems (fuel + 1) (cs ++ ']' :: rest) = some (js, rest) := by
  cases hjs with
  | one hb hj hb' =>
      simp only [List.length_append] at hfuel
      simp only [List.append_assoc]
      refine readItems_one (h.value hj (by omega) hb (.blanks hb' (by simp) rest)) ?_
      rw [skipBlanks_append hb', skipBlanks_cons (by decide)]
  | more hb hj hb' hjs =>
      have hpos := hj.length_pos
      simp only [List.length_append, List.length_cons] at hfuel
      simp only [List.append_assoc, List.cons_append]
      refine readItems_more (h.value hj (by omega) hb (.blanks hb' (by simp) _)) ?_
        (h.items hjs (by omega) rest)
      rw [skipBlanks_append hb', skipBlanks_cons (by decide)]

lemma succ_members (h : ReadsBack fuel) {ms : List (Text × Json)} {cs : List Char}
    (hms : SpellsMembers ms cs) (hfuel : 2 * cs.length + 1 ≤ fuel + 1) (rest : List Char) :
    readMembers (fuel + 1) (cs ++ '}' :: rest) = some (ms, rest) := by
  cases hms with
  | @one key _ _ _ _ _ _ hb hb₁ hb₂ hj hb' =>
      simp only [List.length_append, List.length_cons] at hfuel
      simp only [List.append_assoc, List.cons_append]
      obtain ⟨cs', hquote, hkey, hcolon⟩ := readKey hb hb₁ key _
      rw [← textOfUnits_toNat key]
      refine readMembers_one hquote hkey hcolon
        (h.value hj (by omega) hb₂ (.blanks hb' (by simp) rest)) ?_
      rw [skipBlanks_append hb', skipBlanks_cons (by decide)]
  | @more key _ _ _ _ _ _ _ _ hb hb₁ hb₂ hj hb' hms =>
      have hpos := hj.length_pos
      simp only [List.length_append, List.length_cons] at hfuel
      simp only [List.append_assoc, List.cons_append]
      obtain ⟨cs', hquote, hkey, hcolon⟩ := readKey hb hb₁ key _
      rw [← textOfUnits_toNat key]
      refine readMembers_more hquote hkey hcolon
        (h.value hj (by omega) hb₂ (.blanks hb' (by simp) _)) ?_ (h.members hms (by omega) rest)
      rw [skipBlanks_append hb', skipBlanks_cons (by decide)]

lemma succ_value (h : ReadsBack fuel) {j : Json} {cs : List Char} (hj : Spells j cs)
    (hfuel : 2 * cs.length ≤ fuel + 1) {b rest : List Char} (hb : Blanks b) (hrest : Ends rest) :
    readValue (fuel + 1) (b ++ (cs ++ rest)) = some (j, rest) := by
  rw [readValue, hj.skipBlanks hb]
  cases hj with
  | null => rfl
  | bool b => cases b <;> rfl
  | integer n =>
      obtain ⟨c, cs, heq, hc⟩ := exists_integerLiteral n
      have hnumber := readNumber_integerLiteral n hrest
      rw [heq, List.cons_append] at hnumber ⊢
      -- neither a sign nor a digit starts anything else
      split
      all_goals first
        | exact hnumber
        | rename_i hcons
          obtain ⟨rfl, -⟩ := List.cons.inj hcons
          simp [isDigit] at hc
  | string s =>
      have hread := readString_stringLiteral s.toList rest
      simp only [stringLiteral, List.cons_append, List.append_assoc, List.nil_append]
      show (readString _).map _ = _
      rw [hread, Option.map_some, textOfUnits_toNat]
      rfl
  | noItems hb' =>
      simp only [List.cons_append, List.append_assoc, List.nil_append]
      rw [skipBlanks_append hb', skipBlanks_cons (by decide)]
      rfl
  | items hjs =>
      simp only [List.length_cons, List.length_append, List.length_nil] at hfuel
      simp only [List.cons_append, List.append_assoc, List.nil_append]
      obtain ⟨c, cs', hskip, hne⟩ := hjs.exists_cons (']' :: rest)
      have hread := h.items hjs (by omega) rest
      rw [← readItems_skipBlanks, hskip] at hread
      rw [hskip]
      split
      · rename_i hcons
        exact absurd (List.cons.inj hcons).1 hne
      · rw [hread]
        rfl
  | noMembers hb' =>
      simp only [List.cons_append, List.append_assoc, List.nil_append]
      rw [skipBlanks_append hb', skipBlanks_cons (by decide)]
      rfl
  | members hms =>
      simp only [List.length_cons, List.length_append, List.length_nil] at hfuel
      simp only [List.cons_append, List.append_assoc, List.nil_append]
      obtain ⟨cs', hskip⟩ := hms.exists_cons ('}' :: rest)
      have hread := h.members hms (by omega) rest
      rw [← readMembers_skipBlanks, hskip] at hread
      rw [hskip]
      show (readMembers fuel _).map _ = _
      rw [hread]
      rfl

end ReadsBack

/-- Texts that are short enough for the fuel are read, whatever the fuel is. -/
lemma readsBack (fuel : Nat) : ReadsBack fuel := by
  induction fuel with
  | zero =>
      refine ⟨fun hj hfuel => ?_, fun _ hfuel => by omega, fun _ hfuel => by omega⟩
      have hpos := hj.length_pos
      omega
  | succ fuel ih => exact ⟨ih.succ_value, ih.succ_items, ih.succ_members⟩

/-- **Every text of a value is read as that value**, also with blanks around it. -/
lemma parse?_of_spells {j : Json} {cs : List Char} (h : Spells j cs) {b b' : List Char}
    (hb : Blanks b) (hb' : Blanks b') : parse? (String.ofList (b ++ (cs ++ b'))) = some j := by
  have hends : Ends b' := by
    cases b' with
    | nil => exact .nil
    | cons c b' => exact .cons (.inl (hb' c List.mem_cons_self)) b'
  have hskip : skipBlanks b' = [] := by
    have happend := skipBlanks_append hb' []
    rwa [List.append_nil] at happend
  have hread := (readsBack (2 * (b ++ (cs ++ b')).length + 2)).value h
    (by simp only [List.length_append]; omega) hb hends
  rw [parse?, String.length_ofList, String.toList_ofList, hread]
  dsimp only
  rw [hskip]
  rfl

/-! ### Printing -/

/-- A value that can be written so that it is read back: numbers are integers, and all strings
denote texts. -/
inductive Proper : Json → Prop
  | null : Proper null
  | bool (b : Bool) : Proper (bool b)
  | integer (n : Int) : Proper (integer n)
  | string (s : String) : Proper (ofString s)
  | array {items : List Json} : (∀ j ∈ items, Proper j) → Proper (array items)
  | object {members : List (Text × Json)} : (∀ m ∈ members, m.1.isSome = true) →
      (∀ m ∈ members, Proper m.2) → Proper (object members)

lemma Blanks.nil : Blanks [] := fun c hc => by cases hc

lemma spellsItems_compact {items : List Json} (hne : items ≠ [])
    (h : ∀ j ∈ items, Spells j j.compactChars) : SpellsItems items (compactItems items) := by
  induction items with
  | nil => exact absurd rfl hne
  | cons item rest ih =>
      have hitem := h item List.mem_cons_self
      cases rest with
      | nil => simpa [compactItems] using SpellsItems.one .nil hitem .nil
      | cons next rest =>
          have hrest := ih (by simp) fun j hj => h j (List.mem_cons_of_mem _ hj)
          simpa [compactItems] using SpellsItems.more .nil hitem .nil hrest

lemma spellsMembers_compact {members : List (Text × Json)} (hne : members ≠ [])
    (hkeys : ∀ m ∈ members, m.1.isSome = true)
    (h : ∀ m ∈ members, Spells m.2 m.2.compactChars) :
    SpellsMembers members (compactMembers members) := by
  induction members with
  | nil => exact absurd rfl hne
  | cons member rest ih =>
      obtain ⟨key, value⟩ := member
      obtain ⟨key, rfl⟩ := Option.isSome_iff_exists.mp (hkeys _ List.mem_cons_self)
      have hvalue : Spells value value.compactChars := h _ List.mem_cons_self
      cases rest with
      | nil =>
          have hone : SpellsMembers [(some key, value)] _ := .one .nil .nil .nil hvalue .nil
          simpa [compactMembers, textLiteral] using hone
      | cons next rest =>
          have hrest := ih (by simp) (fun m hm => hkeys m (List.mem_cons_of_mem _ hm))
            fun m hm => h m (List.mem_cons_of_mem _ hm)
          have hmore : SpellsMembers ((some key, value) :: next :: rest) _ :=
            .more .nil .nil .nil hvalue .nil hrest
          simpa [compactMembers, textLiteral] using hmore

/-- **The compact layout writes a text of the value.** -/
lemma Proper.spells_compact {j : Json} (h : j.Proper) : Spells j j.compactChars := by
  induction h with
  | null => exact .null
  | bool b => exact .bool b
  | integer n => exact .integer n
  | string s => exact .string s
  | @array items _ ih =>
      cases items with
      | nil => exact .noItems .nil
      | cons item rest => exact .items (spellsItems_compact (by simp) ih)
  | @object members hkeys _ ih =>
      cases members with
      | nil => exact .noMembers .nil
      | cons member rest => exact .members (spellsMembers_compact (by simp) hkeys ih)

lemma blanks_newline (depth : Nat) : Blanks (newline depth) := by
  intro c hc
  rcases List.mem_cons.mp hc with rfl | hc
  · decide
  · rw [List.eq_of_mem_replicate hc]
    decide

lemma spellsItems_indented {depth : Nat} {items : List Json} (hne : items ≠ [])
    (h : ∀ j ∈ items, Spells j (j.indentedChars depth)) {b : List Char} (hb : Blanks b) :
    SpellsItems items (indentedItems depth items ++ b) := by
  have hline := blanks_newline depth
  induction items with
  | nil => exact absurd rfl hne
  | cons item rest ih =>
      have hitem := h item List.mem_cons_self
      cases rest with
      | nil => simpa [indentedItems] using SpellsItems.one hline hitem hb
      | cons next rest =>
          have hrest := ih (by simp) fun j hj => h j (List.mem_cons_of_mem _ hj)
          simpa [indentedItems] using SpellsItems.more hline hitem .nil hrest

lemma spellsMembers_indented {depth : Nat} {members : List (Text × Json)} (hne : members ≠ [])
    (hkeys : ∀ m ∈ members, m.1.isSome = true)
    (h : ∀ m ∈ members, Spells m.2 (m.2.indentedChars depth)) {b : List Char} (hb : Blanks b) :
    SpellsMembers members (indentedMembers depth members ++ b) := by
  have hline := blanks_newline depth
  have hspace : Blanks [' '] := fun c hc => by
    rw [List.mem_singleton.mp hc]
    decide
  induction members with
  | nil => exact absurd rfl hne
  | cons member rest ih =>
      obtain ⟨key, value⟩ := member
      obtain ⟨key, rfl⟩ := Option.isSome_iff_exists.mp (hkeys _ List.mem_cons_self)
      have hvalue : Spells value (value.indentedChars depth) := h _ List.mem_cons_self
      cases rest with
      | nil =>
          have hone : SpellsMembers [(some key, value)] _ := .one hline .nil hspace hvalue hb
          simpa [indentedMembers, textLiteral] using hone
      | cons next rest =>
          have hrest := ih (by simp) (fun m hm => hkeys m (List.mem_cons_of_mem _ hm))
            fun m hm => h m (List.mem_cons_of_mem _ hm)
          have hmore : SpellsMembers ((some key, value) :: next :: rest) _ :=
            .more hline .nil hspace hvalue .nil hrest
          simpa [indentedMembers, textLiteral] using hmore

/-- **The indented layout writes a text of the value**, at every depth. -/
lemma Proper.spells_indented {j : Json} (h : j.Proper) (depth : Nat) :
    Spells j (j.indentedChars depth) := by
  induction h generalizing depth with
  | null => exact .null
  | bool b => exact .bool b
  | integer n => exact .integer n
  | string s => exact .string s
  | @array items _ ih =>
      cases items with
      | nil => exact .noItems .nil
      | cons item rest =>
          have hitems := spellsItems_indented (by simp) (fun j hj => ih j hj (depth + 1))
            (blanks_newline depth)
          simpa [indentedChars] using Spells.items hitems
  | @object members hkeys _ ih =>
      cases members with
      | nil => exact .noMembers .nil
      | cons member rest =>
          have hmembers := spellsMembers_indented (by simp) hkeys
            (fun m hm => ih m hm (depth + 1)) (blanks_newline depth)
          simpa [indentedChars] using Spells.members hmembers

lemma Proper.parse?_compact {j : Json} (h : j.Proper) : parse? j.compact = some j := by
  simpa [compact] using parse?_of_spells h.spells_compact .nil .nil

lemma Proper.parse?_indented {j : Json} (h : j.Proper) : parse? j.indented = some j := by
  simpa [indented] using parse?_of_spells (h.spells_indented 0) .nil .nil

end Json

end EffectMachine
