/-
What is assembled.

The code of a package is made of the instructions that directives emit, one behind the other. Each
symbolic operand has a relocation, and a label is the position at which it was defined, also where
it was used before.

* `SymbolicInstruction.fill`: an instruction with a word for its operand;
* `emitted`, `labelAt?`: the instructions that directives emit, and where they define a label;
* `relocationsOf`, `usesOf`: the relocations of instructions, and their uses of labels;
* `Draft.Writes`, `Draft.label?_of_apply`: what a directive writes, and what it does to labels;
* `Draft.writes_of_applyAll`, `Draft.label?_of_applyAll`: what directives write;
* `Draft.fillUses_eq`, `Draft.patchUses_usesOf`, `Draft.renumberUses_usesOf`: filling in labels
  changes the words that wait for them and the numbers of their relocations, and nothing else;
* `exists_target`: **the code of an assembled package is that of the instructions that were
  emitted, with the numbers of their operands**.
-/
import EffectMachine.Assembly
import EffectMachine.Proofs.InstructionStream
import Mathlib.Algebra.BigOperators.Group.List.Basic

namespace EffectMachine

/-! ### Instructions and their operands -/

/-- What the relocation of an operand refers to; a fixed number has none. -/
def Operand.kind? : Operand → Option RelocationKind
  | fixed _ => none
  | cls _ => some .cls
  | method _ => some .method
  | global (.own _) => some .global
  | global (.imported _) => some .imported
  | label _ => some .code

/-- The number of an operand in the package, labels having the given ones. -/
def Operand.number (target : Nat → UInt32) : Operand → UInt32
  | fixed n => n.toUInt32
  | cls index | method index | global (.own index) | global (.imported index) => index
  | label index => target index

/-- The relocation of an operand at a position. -/
def Operand.relocation? (target : Nat → UInt32) (pos : Nat) (o : Operand) : Option Relocation :=
  o.kind?.map fun kind => ⟨kind, (o.number target).toInt32, UInt32.ofNat pos⟩

/-- The use of a label by an operand at a position. -/
def Operand.use? (pos : Nat) : Operand → Option (Nat × Nat)
  | label index => some (index, pos)
  | _ => none

namespace SymbolicInstruction

/-- The word operand of an instruction. -/
def operand? : SymbolicInstruction → Option Operand
  | natural o | create o _ => some o
  | globalLoad g | globalStore g => some (.global g)
  | call m _ => some (.method m)
  | load _ | store _ | field _ | ret => none

/-- The instruction with a word for its operand. -/
def fill (value : Operand → UInt32) : SymbolicInstruction → Instruction
  | load r => .load r
  | store r => .store r
  | natural o => .natural (value o).toInt32
  | globalLoad g => .globalLoad (value (.global g))
  | globalStore g => .globalStore (value (.global g))
  | create o base => .create ⟨(value o).toInt32⟩ base
  | field index => .field index
  | ret => .ret
  | call m base => .call ⟨value (.method m)⟩ base

/-- The number of bytes of an instruction, whatever its operand is. -/
def size (i : SymbolicInstruction) : Nat := (i.fill fun _ => 0).size

@[simp] lemma size_fill (value : Operand → UInt32) (i : SymbolicInstruction) :
    (i.fill value).size = i.size := by
  cases i <;> rfl

lemma fill_congr {value value' : Operand → UInt32} {i : SymbolicInstruction}
    (h : ∀ o, i.operand? = some o → value o = value' o) : i.fill value = i.fill value' := by
  cases i <;> simp_all [operand?, fill]

/-- An operand stands behind the opcode. -/
lemma exists_encode {i : SymbolicInstruction} {o : Operand} (h : i.operand? = some o) :
    ∃ byte tail, (∀ value, (i.fill value).encode = [byte] ++ Word.bytes (value o) ++ tail) ∧
      ∀ d : Draft, d.emit i = ((d.append [byte]).appendOperand o).append tail := by
  have hnil : ∀ d : Draft, d.append [] = d := fun d => by simp [Draft.append]
  cases i with
  | natural o =>
      cases h
      exact ⟨_, [], fun value => by simp [fill, Instruction.encode, Instruction.opcode,
        Instruction.operands], fun d => (hnil _).symm⟩
  | globalLoad g =>
      cases h
      exact ⟨_, [], fun value => by simp [fill, Instruction.encode, Instruction.opcode,
        Instruction.operands], fun d => (hnil _).symm⟩
  | globalStore g =>
      cases h
      exact ⟨_, [], fun value => by simp [fill, Instruction.encode, Instruction.opcode,
        Instruction.operands], fun d => (hnil _).symm⟩
  | create o base =>
      cases h
      exact ⟨_, [base], fun value => by simp [fill, Instruction.encode, Instruction.opcode,
        Instruction.operands], fun d => rfl⟩
  | call m base =>
      cases h
      exact ⟨_, [base], fun value => rfl, fun d => rfl⟩
  | load r => cases h
  | store r => cases h
  | field index => cases h
  | ret => cases h

lemma five_le_size {i : SymbolicInstruction} {o : Operand} (h : i.operand? = some o) :
    5 ≤ i.size := by
  obtain ⟨byte, tail, hencode, -⟩ := exists_encode h
  have hlength := congrArg List.length (hencode fun _ => 0)
  rw [Instruction.length_encode, size_fill, List.length_append, List.length_append,
    Word.length_bytes, List.length_singleton] at hlength
  omega

/-- The relocation of an instruction at a position. -/
def relocation? (target : Nat → UInt32) (pos : Nat) (i : SymbolicInstruction) :
    Option Relocation :=
  i.operand?.bind (·.relocation? target (pos + 1))

/-- The use of a label by an instruction at a position. -/
def use? (pos : Nat) (i : SymbolicInstruction) : Option (Nat × Nat) :=
  i.operand?.bind (·.use? (pos + 1))

lemma pos_lt_of_relocation? {target : Nat → UInt32} {pos : Nat} {i : SymbolicInstruction}
    {r : Relocation} (h : i.relocation? target pos = some r) : r.pos.toNat < pos + i.size := by
  obtain ⟨o, ho, hr⟩ := Option.bind_eq_some_iff.mp h
  obtain ⟨kind, -, rfl⟩ := Option.map_eq_some_iff.mp hr
  have hsize := five_le_size ho
  have hle : (UInt32.ofNat (pos + 1)).toNat ≤ pos + 1 := by
    rw [UInt32.toNat_ofNat']
    exact Nat.mod_le _ _
  show (UInt32.ofNat (pos + 1)).toNat < _
  omega

end SymbolicInstruction

open SymbolicInstruction

/-- The relocations of instructions, from a position on. -/
def relocationsOf (target : Nat → UInt32) (pos : Nat) : List SymbolicInstruction → List Relocation
  | [] => []
  | i :: is => (i.relocation? target pos).toList ++ relocationsOf target (pos + i.size) is

/-- The uses of labels by instructions, from a position on. -/
def usesOf (pos : Nat) : List SymbolicInstruction → List (Nat × Nat)
  | [] => []
  | i :: is => (i.use? pos).toList ++ usesOf (pos + i.size) is

/-- The code of instructions, with the numbers of their operands. -/
def codeOf (target : Nat → UInt32) (is : List SymbolicInstruction) : List UInt8 :=
  Instruction.encodeAll (is.map (fill (Operand.number target)))

@[simp] lemma codeOf_cons (target : Nat → UInt32) (i : SymbolicInstruction)
    (is : List SymbolicInstruction) :
    codeOf target (i :: is) = (i.fill (Operand.number target)).encode ++ codeOf target is := rfl

@[simp] lemma codeOf_append (target : Nat → UInt32) (is js : List SymbolicInstruction) :
    codeOf target (is ++ js) = codeOf target is ++ codeOf target js := by
  rw [codeOf, List.map_append, Instruction.encodeAll_append, codeOf, codeOf]

lemma relocationsOf_append (target : Nat → UInt32) (pos : Nat) (is js : List SymbolicInstruction) :
    relocationsOf target pos (is ++ js) =
      relocationsOf target pos is ++ relocationsOf target (pos + (is.map size).sum) js := by
  induction is generalizing pos with
  | nil => rfl
  | cons i is ih =>
      rw [List.cons_append, relocationsOf, ih, relocationsOf, List.append_assoc, List.map_cons,
        List.sum_cons, Nat.add_assoc]

lemma usesOf_append (pos : Nat) (is js : List SymbolicInstruction) :
    usesOf pos (is ++ js) = usesOf pos is ++ usesOf (pos + (is.map size).sum) js := by
  induction is generalizing pos with
  | nil => rfl
  | cons i is ih =>
      rw [List.cons_append, usesOf, ih, usesOf, List.append_assoc, List.map_cons, List.sum_cons,
        Nat.add_assoc]

lemma length_encodeAll_fill (value : Operand → UInt32) (is : List SymbolicInstruction) :
    (Instruction.encodeAll (is.map (fill value))).length = (is.map size).sum := by
  rw [Instruction.length_encodeAll, List.map_map]
  congr 1
  exact List.map_congr_left fun i _ => size_fill value i

/-! ### Directives -/

/-- The instruction that a directive emits. -/
def Directive.emitted? : Directive → Option SymbolicInstruction
  | emit i => some i
  | _ => none

/-- The instructions that directives emit, in order. -/
def emitted (ds : List Directive) : List SymbolicInstruction := ds.filterMap Directive.emitted?

lemma emitted_cons (x : Directive) (ds : List Directive) :
    emitted (x :: ds) = x.emitted?.toList ++ emitted ds := by
  rw [emitted, List.filterMap_cons]
  cases x.emitted? <;> rfl

/-- Where directives define a label, from a position on, if a number of labels has been declared
before. -/
def labelFrom? (index pos declared : Nat) : List Directive → Option Nat
  | [] => none
  | .declareLabel :: ds => labelFrom? index pos (declared + 1) ds
  | .defineLabel label :: ds =>
    if label = index ∧ index < declared then some pos else labelFrom? index pos declared ds
  | .emit i :: ds => labelFrom? index (pos + i.size) declared ds
  | _ :: ds => labelFrom? index pos declared ds

/-- The number of labels that a directive declares. -/
def Directive.declares : Directive → Nat
  | declareLabel => 1
  | _ => 0

/-- A directive that does not define the label may move the position and declare a label. -/
lemma labelFrom?_cons (index pos declared : Nat) (x : Directive) (ds : List Directive) :
    labelFrom? index pos declared (x :: ds) =
      if x = .defineLabel index ∧ index < declared then some pos
      else
        labelFrom? index (pos + (x.emitted?.toList.map size).sum) (declared + x.declares) ds := by
  cases x <;> simp [labelFrom?, Directive.emitted?, Directive.declares]

/-- Where directives define a label. -/
def labelAt? (ds : List Directive) (index : Nat) : Option Nat := labelFrom? index 0 0 ds

/-- A label is defined between two instructions. -/
lemma exists_of_labelFrom? {index pos declared at' : Nat} {ds : List Directive}
    (h : labelFrom? index pos declared ds = some at') :
    ∃ front back, emitted ds = front ++ back ∧ at' = pos + (front.map size).sum := by
  induction ds generalizing pos declared with
  | nil => cases h
  | cons x ds ih =>
      rw [labelFrom?_cons] at h
      split at h
      · cases h
        exact ⟨[], _, rfl, by simp⟩
      · obtain ⟨front, back, hsplit, rfl⟩ := ih h
        refine ⟨x.emitted?.toList ++ front, back, ?_, ?_⟩
        · rw [emitted_cons, hsplit, List.append_assoc]
        · rw [List.map_append, List.sum_append, Nat.add_assoc]

/-! ### What directives write -/

namespace Draft

/-- Labels that have not been filled in are written as zero. -/
def blank : Nat → UInt32 := fun _ => 0

/-- The position of a label, if it has been defined. -/
def label? (d : Draft) (index : Nat) : Option UInt32 := (d.labels[index]?).join

/-- A draft that is another one with further instructions behind its code. -/
structure Writes (d d' : Draft) (is : List SymbolicInstruction) : Prop where
  code : d'.package.code.toList = d.package.code.toList ++ codeOf blank is
  relocations : d'.package.relocations.toList =
    d.package.relocations.toList ++ relocationsOf blank d.position is
  uses : d'.uses.toList = d.uses.toList ++ usesOf d.position is

variable {d d' : Draft}

lemma Writes.position {is : List SymbolicInstruction} (h : d.Writes d' is) :
    d'.position = d.position + (is.map size).sum := by
  rw [Draft.position, ← Array.length_toList, h.code, List.length_append, Array.length_toList,
    codeOf, length_encodeAll_fill]
  rfl

lemma Writes.nil (hcode : d'.package.code = d.package.code)
    (hrelocations : d'.package.relocations = d.package.relocations) (huses : d'.uses = d.uses) :
    d.Writes d' [] :=
  ⟨by simp [hcode, codeOf], by simp [hrelocations, relocationsOf], by simp [huses, usesOf]⟩

lemma Writes.append {d₁ : Draft} {is js : List SymbolicInstruction} (h : d.Writes d₁ is)
    (h' : d₁.Writes d' js) : d.Writes d' (is ++ js) where
  code := by rw [h'.code, h.code, codeOf_append, List.append_assoc]
  relocations := by
    rw [h'.relocations, h.relocations, h.position, relocationsOf_append, List.append_assoc]
  uses := by rw [h'.uses, h.uses, h.position, usesOf_append, List.append_assoc]

/-- An operand is written as a word, with its relocation and its use of a label. -/
lemma appendOperand_spec (o : Operand) (d : Draft) :
    (d.appendOperand o).package.code.toList =
      d.package.code.toList ++ Word.bytes (o.number blank) ∧
    (d.appendOperand o).package.relocations.toList =
      d.package.relocations.toList ++ (o.relocation? blank d.position).toList ∧
    (d.appendOperand o).uses.toList = d.uses.toList ++ (o.use? d.position).toList ∧
    (d.appendOperand o).labels = d.labels := by
  cases o with
  | global g =>
      cases g <;> simp [appendOperand, appendRelocated, append, Operand.number,
        Operand.relocation?, Operand.kind?, Operand.use?]
  | label index =>
      have hzero : (0 : Int32).toUInt32 = 0 := rfl
      simp [appendOperand, appendRelocated, append, Operand.number, Operand.relocation?,
        Operand.kind?, Operand.use?, blank, position, hzero]
  | _ => simp [appendOperand, appendRelocated, append, Operand.number, Operand.relocation?,
      Operand.kind?, Operand.use?]

/-- An instruction is written behind the code. -/
lemma emit_spec (i : SymbolicInstruction) (d : Draft) :
    d.Writes (d.emit i) [i] ∧ (d.emit i).labels = d.labels := by
  cases ho : i.operand? with
  | none =>
      have hemit : d.emit i = d.append (i.fill (Operand.number blank)).encode := by
        cases i <;> first | rfl | cases ho
      rw [hemit]
      refine ⟨⟨?_, ?_, ?_⟩, rfl⟩
      · simp [append, codeOf]
      · simp [append, relocationsOf, relocation?, ho]
      · simp [append, usesOf, use?, ho]
  | some o =>
      obtain ⟨byte, tail, hencode, hemit⟩ := exists_encode ho
      obtain ⟨hcode, hrelocations, huses, hlabels⟩ := appendOperand_spec o (d.append [byte])
      have hpos : (d.append [byte]).position = d.position + 1 := by simp [position, append]
      rw [hpos] at hrelocations huses
      rw [hemit]
      refine ⟨⟨?_, ?_, ?_⟩, hlabels⟩
      · rw [append, Array.toList_appendList, hcode]
        simp [append, codeOf, hencode]
      · rw [append, hrelocations]
        simp [append, relocationsOf, relocation?, ho]
      · rw [append, huses]
        simp [append, usesOf, use?, ho]

lemma writes_of_apply {x : Directive} {a : Answer} (h : d.apply x = .ok (a, d')) :
    d.Writes d' x.emitted?.toList := by
  cases x with
  | emit i =>
      cases h
      exact (emit_spec i d).1
  | importPackage name =>
      cases h
      split <;> exact .nil rfl rfl rfl
  | declareMethod name =>
      cases h
      split <;> exact .nil rfl rfl rfl
  | implementExternal cls method native =>
      cases h
      split <;> exact .nil rfl rfl rfl
  | defineLabel index =>
      rw [apply, defineLabel] at h
      split at h
      · rename_i d₁ hdefine
        cases h
        split at hdefine
        · cases hdefine
        · cases hdefine
          exact .nil rfl rfl rfl
      · cases h
  | declareGlobal =>
      cases h
      exact .nil rfl rfl rfl
  | declareClass name kind fieldCount =>
      cases h
      exact .nil rfl rfl rfl
  | implement cls method =>
      cases h
      exact .nil rfl rfl rfl
  | declareLabel =>
      cases h
      exact .nil rfl rfl rfl

lemma applyAll_cons {x : Directive} {ds : List Directive} (h : applyAll (x :: ds) d = .ok d') :
    ∃ a d₁, d.apply x = .ok (a, d₁) ∧ applyAll ds d₁ = .ok d' := by
  rw [applyAll] at h
  split at h
  · rename_i a d₁ hx
    exact ⟨a, d₁, hx, h⟩
  · cases h

/-- **Directives write the instructions that they emit**, one behind the other. -/
lemma writes_of_applyAll {ds : List Directive} (h : applyAll ds d = .ok d') :
    d.Writes d' (emitted ds) := by
  induction ds generalizing d with
  | nil =>
      cases h
      exact .nil rfl rfl rfl
  | cons x ds ih =>
      obtain ⟨a, d₁, hx, hrest⟩ := applyAll_cons h
      rw [emitted_cons]
      exact (writes_of_apply hx).append (ih hrest)

/-- A label that has not been defined before gets the current position, if it has been
declared. -/
lemma label?_defineLabel {label i : Nat} (h : d.defineLabel label = .ok d') :
    d.label? label = none ∧ d'.position = d.position ∧ d'.labels.size = d.labels.size ∧
      d'.label? i = if label = i ∧ i < d.labels.size then some (UInt32.ofNat d.position)
        else d.label? i := by
  rw [defineLabel] at h
  split at h
  · cases h
  · rename_i hnone
    cases h
    refine ⟨?_, rfl, Array.size_setIfInBounds, ?_⟩
    · rw [label?]
      cases hlabel : d.labels[label]? with
      | none => rfl
      | some l =>
          cases l with
          | none => rfl
          | some at' => exact absurd hlabel (hnone at')
    · rw [label?, Array.getElem?_setIfInBounds]
      grind [label?]

/-- A directive changes the labels that it declares or defines, and no other. -/
lemma label?_of_apply {x : Directive} {a : Answer} (h : d.apply x = .ok (a, d')) :
    d'.labels.size = d.labels.size + x.declares ∧
    (∀ label, x = .defineLabel label → d.label? label = none) ∧
    ∀ index, d'.label? index =
      if x = .defineLabel index ∧ index < d.labels.size then some (UInt32.ofNat d.position)
      else d.label? index := by
  -- directives that are not about labels
  have hkeep : d'.labels = d.labels → x.declares = 0 → (∀ label, x ≠ .defineLabel label) →
      d'.labels.size = d.labels.size + x.declares ∧
      (∀ label, x = .defineLabel label → d.label? label = none) ∧
      ∀ index, d'.label? index =
        if x = .defineLabel index ∧ index < d.labels.size then some (UInt32.ofNat d.position)
        else d.label? index := by
    intro hlabels hdeclares hother
    refine ⟨by rw [hlabels, hdeclares]; rfl, fun label hx => absurd hx (hother label),
      fun index => ?_⟩
    rw [if_neg fun hx => hother index hx.1, label?, hlabels]
    rfl
  cases x with
  | declareLabel =>
      cases h
      refine ⟨Array.size_push _, by simp, fun index => ?_⟩
      rw [if_neg (by simp), label?, Array.getElem?_push]
      split
      · rename_i heq
        rw [label?, heq, Array.getElem?_size]
        rfl
      · rfl
  | defineLabel label =>
      rw [apply] at h
      cases hdefine : d.defineLabel label with
      | error e =>
          rw [hdefine] at h
          cases h
      | ok d₁ =>
          rw [hdefine] at h
          cases h
          obtain ⟨hnone, -, hsize, -⟩ := label?_defineLabel (i := label) hdefine
          refine ⟨hsize, ?_, fun index => ?_⟩
          · rintro _ ⟨⟩
            exact hnone
          · obtain ⟨-, -, -, hlabel⟩ := label?_defineLabel (i := index) hdefine
            simpa using hlabel
  | emit i =>
      cases h
      exact hkeep (emit_spec i d).2 rfl (by simp)
  | importPackage name => exact hkeep (by cases h; split <;> rfl) rfl (by simp)
  | declareMethod name => exact hkeep (by cases h; split <;> rfl) rfl (by simp)
  | implementExternal cls method native =>
      exact hkeep (by cases h; split <;> rfl) rfl (by simp)
  | declareGlobal => exact hkeep (by cases h; rfl) rfl (by simp)
  | declareClass name kind fieldCount => exact hkeep (by cases h; rfl) rfl (by simp)
  | implement cls method => exact hkeep (by cases h; rfl) rfl (by simp)

/-- The position of a label after further directives: that of the draft, or where they define
it. -/
def labelAfter? (d : Draft) (index : Nat) (ds : List Directive) : Option UInt32 :=
  (d.label? index).or ((labelFrom? index d.position d.labels.size ds).map UInt32.ofNat)

@[simp] lemma labelAfter?_nil (d : Draft) (index : Nat) :
    d.labelAfter? index [] = d.label? index := by
  rw [labelAfter?, labelFrom?, Option.map_none, Option.or_none]

/-- Carrying out a directive does not change where a label is in the end. -/
lemma labelAfter?_of_apply {x : Directive} {a : Answer} (h : d.apply x = .ok (a, d'))
    (index : Nat) (ds : List Directive) :
    d'.labelAfter? index ds = d.labelAfter? index (x :: ds) := by
  obtain ⟨hsize, hnone, hlabel⟩ := label?_of_apply h
  rw [labelAfter?, hlabel, hsize, (writes_of_apply h).position, labelAfter?, labelFrom?_cons]
  split
  · rename_i hit
    rw [hnone index hit.1]
    rfl
  · rfl

/-- **A label is where directives define it.** -/
lemma label?_of_applyAll {ds : List Directive} (h : applyAll ds d = .ok d') (index : Nat) :
    d'.label? index = d.labelAfter? index ds := by
  induction ds generalizing d with
  | nil =>
      cases h
      rw [labelAfter?_nil]
  | cons x ds ih =>
      obtain ⟨a, d₁, hx, hrest⟩ := applyAll_cons h
      rw [ih hrest, labelAfter?_of_apply hx]

/-! ### Filling in labels -/

/-- The positions of labels. -/
def target (d : Draft) (index : Nat) : UInt32 := (d.label? index).getD 0

/-- The first relocation at a position is given a new number. -/
lemma renumber_append {front back : List Relocation} {r : Relocation} {pos : Nat} (id : Int32)
    (hfront : ∀ r' ∈ front, r'.pos.toNat ≠ pos) (hr : r.pos.toNat = pos) :
    renumber pos id (front ++ r :: back) = front ++ { r with id } :: back := by
  induction front with
  | nil => rw [List.nil_append, renumber, if_pos hr, List.nil_append]
  | cons r' front ih =>
      rw [List.forall_mem_cons] at hfront
      rw [List.cons_append, renumber, if_neg hfront.1, ih hfront.2, List.cons_append]

/-- The code with the words that wait for labels filled in. -/
def patchUses (target : Nat → UInt32) (uses : List (Nat × Nat)) (code : Code) : Code :=
  uses.foldl (fun code use => (Word.patch? code use.2 (target use.1)).getD code) code

/-- The relocations with the numbers of labels filled in. -/
def renumberUses (target : Nat → UInt32) (uses : List (Nat × Nat)) (rs : List Relocation) :
    List Relocation :=
  uses.foldl (fun rs use => renumber use.2 (target use.1).toInt32 rs) rs

/-- Filling in ends at the first use of a label that has not been defined; without such a use it
changes words of the code and numbers of relocations. -/
lemma fillUses_eq (d : Draft) (uses : List (Nat × Nat)) (p : Package) :
    fillUses d.labels uses p =
      (uses.find? fun use => (d.label? use.1).isNone).elim
        (.ok { p with
          code := patchUses d.target uses p.code
          relocations := (renumberUses d.target uses p.relocations.toList).toArray })
        fun use => .error (.undefinedLabel use.1) := by
  induction uses generalizing p with
  | nil => rfl
  | cons use uses ih =>
      rw [fillUses]
      split
      · rename_i at' hat
        have hlabel : d.label? use.1 = some at' := by rw [label?, hat]; rfl
        have htarget : d.target use.1 = at' := by rw [target, hlabel]; rfl
        rw [ih, List.find?_cons_of_neg (by simp [hlabel]), ← htarget]
        rfl
      · rename_i hnone
        have hlabel : d.label? use.1 = none := by
          rw [label?]
          cases hat : d.labels[use.1]? with
          | none => rfl
          | some l =>
              cases l with
              | none => rfl
              | some at' => exact absurd hat (hnone at')
        rw [List.find?_cons_of_pos (by simp [hlabel])]
        rfl

lemma number_congr {o : Operand} (h : ∀ index, o ≠ .label index) (target target' : Nat → UInt32) :
    o.number target = o.number target' := by
  cases o with
  | label index => exact absurd rfl (h index)
  | global g => cases g <;> rfl
  | _ => rfl

lemma eq_of_use?_eq_none {i : SymbolicInstruction} {pos : Nat} (h : i.use? pos = none)
    (target target' : Nat → UInt32) :
    i.fill (Operand.number target) = i.fill (Operand.number target') ∧
      i.relocation? target pos = i.relocation? target' pos := by
  have hnumber : ∀ o, i.operand? = some o → o.number target = o.number target' := by
    intro o ho
    refine number_congr (fun index hlabel => ?_) _ _
    rw [use?, ho, hlabel] at h
    cases h
  refine ⟨fill_congr hnumber, ?_⟩
  rw [relocation?, relocation?]
  cases ho : i.operand? with
  | none => rfl
  | some o =>
      rw [Option.bind_some, Option.bind_some, Operand.relocation?, Operand.relocation?,
        hnumber o ho]

lemma exists_label_of_use? {i : SymbolicInstruction} {pos : Nat} {use : Nat × Nat}
    (h : i.use? pos = some use) : i.operand? = some (.label use.1) ∧ use.2 = pos + 1 := by
  obtain ⟨o, ho, huse⟩ := Option.bind_eq_some_iff.mp h
  cases o with
  | label index =>
      cases huse
      exact ⟨ho, rfl⟩
  | _ => cases huse

/-- The word of an instruction that waits for a label is filled in. -/
lemma patchUses_instruction (target : Nat → UInt32) (i : SymbolicInstruction)
    (before rest : List UInt8) :
    patchUses target (i.use? before.length).toList
        (before ++ (i.fill (Operand.number blank)).encode ++ rest).toArray =
      (before ++ (i.fill (Operand.number target)).encode ++ rest).toArray := by
  cases huse : i.use? before.length with
  | none =>
      rw [(eq_of_use?_eq_none huse blank target).1]
      rfl
  | some use =>
      obtain ⟨ho, hpos⟩ := exists_label_of_use? huse
      obtain ⟨byte, tail, hencode, -⟩ := exists_encode ho
      have hsplit : ∀ value : Operand → UInt32, before ++ (i.fill value).encode ++ rest =
          (before ++ [byte]) ++ Word.bytes (value (.label use.1)) ++ (tail ++ rest) := by
        intro value
        rw [hencode]
        simp
      have hlength : use.2 = (before ++ [byte]).length := by simp [hpos]
      rw [hsplit, hsplit, Option.toList_some, patchUses, List.foldl_cons, List.foldl_nil, hlength,
        Word.patch?_middle, Option.getD_some]
      rfl

/-- **Filling in labels changes the words that wait for them**, and nothing else of the code. -/
lemma patchUses_usesOf (target : Nat → UInt32) (is : List SymbolicInstruction)
    (before : List UInt8) :
    patchUses target (usesOf before.length is) (before ++ codeOf blank is).toArray =
      (before ++ codeOf target is).toArray := by
  induction is generalizing before with
  | nil => rfl
  | cons i is ih =>
      have hlength : before.length + i.size =
          (before ++ (i.fill (Operand.number target)).encode).length := by simp
      rw [usesOf, patchUses, List.foldl_append, codeOf_cons, ← List.append_assoc]
      have hfirst := patchUses_instruction target i before (codeOf blank is)
      rw [patchUses] at hfirst
      rw [hfirst, hlength]
      exact (ih _).trans (by rw [codeOf_cons, List.append_assoc])

/-- The relocation of an instruction that waits for a label is given its number, if its position
can be written down. -/
lemma renumberUses_instruction (target : Nat → UInt32) {i : SymbolicInstruction} {pos : Nat}
    {rs : List Relocation} (more : List Relocation) (hrs : ∀ r ∈ rs, r.pos.toNat < pos)
    (hsize : pos + i.size ≤ 2 ^ 32) :
    renumberUses target (i.use? pos).toList (rs ++ (i.relocation? blank pos).toList ++ more) =
      rs ++ (i.relocation? target pos).toList ++ more := by
  cases huse : i.use? pos with
  | none =>
      rw [(eq_of_use?_eq_none huse blank target).2]
      rfl
  | some use =>
      obtain ⟨ho, hpos⟩ := exists_label_of_use? huse
      have hfive := five_le_size ho
      have hword : (UInt32.ofNat (pos + 1)).toNat = pos + 1 :=
        UInt32.toNat_ofNat_of_lt' (by omega : pos + 1 < 2 ^ 32)
      simp only [relocation?, ho, Option.bind_some, Operand.relocation?, Operand.kind?,
        Option.map_some, Option.toList_some, List.append_assoc, List.cons_append,
        List.nil_append, Operand.number, renumberUses, List.foldl_cons, List.foldl_nil, hpos]
      exact renumber_append _ (fun r hr => by have hlt := hrs r hr; omega) hword

/-- **Filling in labels changes the numbers of their relocations**, and no other relocation. -/
lemma renumberUses_usesOf (target : Nat → UInt32) {is : List SymbolicInstruction} {pos : Nat}
    {rs : List Relocation} (hrs : ∀ r ∈ rs, r.pos.toNat < pos)
    (hsize : pos + (is.map size).sum ≤ 2 ^ 32) :
    renumberUses target (usesOf pos is) (rs ++ relocationsOf blank pos is) =
      rs ++ relocationsOf target pos is := by
  induction is generalizing pos rs with
  | nil => rfl
  | cons i is ih =>
      rw [List.map_cons, List.sum_cons, ← Nat.add_assoc] at hsize
      have hbehind : ∀ r ∈ rs ++ (i.relocation? target pos).toList,
          r.pos.toNat < pos + i.size := by
        intro r hr
        rcases List.mem_append.mp hr with hr | hr
        · exact Nat.lt_add_right _ (hrs r hr)
        · exact pos_lt_of_relocation? (Option.mem_toList.mp hr)
      have hfirst := renumberUses_instruction (i := i) target
        (relocationsOf blank (pos + i.size) is) hrs (by omega)
      rw [renumberUses] at hfirst
      rw [usesOf, renumberUses, List.foldl_append, relocationsOf, ← List.append_assoc, hfirst]
      exact (ih hbehind hsize).trans (by rw [relocationsOf, List.append_assoc])

lemma mem_usesOf_iff {label pos : Nat} {is : List SymbolicInstruction} :
    (∃ at', (label, at') ∈ usesOf pos is) ↔ ∃ i ∈ is, i.operand? = some (.label label) := by
  induction is generalizing pos with
  | nil => simp [usesOf]
  | cons i is ih =>
      have hfirst : (∃ at', (label, at') ∈ (i.use? pos).toList) ↔
          i.operand? = some (.label label) := by
        constructor
        · rintro ⟨at', hat⟩
          exact (exists_label_of_use? (Option.mem_toList.mp hat)).1
        · intro ho
          exact ⟨pos + 1, by simp [use?, ho, Operand.use?]⟩
      simp only [usesOf, List.mem_append, exists_or, hfirst, ih, List.exists_mem_cons_iff]

/-- **What a draft is finished to**: the code of its instructions with the numbers of their
operands, and their relocations, if their positions can be written down. -/
lemma Writes.of_finish {is : List SymbolicInstruction} {p : Package}
    (hwrites : Draft.Writes {} d is) (h : d.finish = .ok p) :
    (∀ i ∈ is, ∀ index, i.operand? = some (.label index) → ∃ at', d.label? index = some at') ∧
      p.code.toList = codeOf d.target is ∧
      (p.code.size ≤ 2 ^ 32 → p.relocations.toList = relocationsOf d.target 0 is) := by
  have hcode : d.package.code = ([] ++ codeOf blank is).toArray :=
    Array.toList_inj.mp hwrites.code
  have hrelocations : d.package.relocations.toList = [] ++ relocationsOf blank 0 is :=
    hwrites.relocations
  have huses : d.uses.toList = usesOf ([] : List UInt8).length is := hwrites.uses
  rw [finish, fillUses_eq] at h
  cases hfind : d.uses.toList.find? fun use => (d.label? use.1).isNone with
  | some use =>
      rw [hfind] at h
      cases h
  | none =>
      rw [hfind, hcode, hrelocations, huses, patchUses_usesOf] at h
      cases h
      refine ⟨fun i hi index ho => ?_, rfl, fun hsize => ?_⟩
      · obtain ⟨at', hat⟩ := mem_usesOf_iff.mpr ⟨i, hi, ho⟩
        have hsome := List.find?_eq_none.mp hfind _ (huses ▸ hat)
        exact Option.ne_none_iff_exists'.mp (by simpa using hsome)
      · have hlength : 0 + (is.map size).sum ≤ 2 ^ 32 := by
          have hsum : (codeOf d.target is).length = (is.map size).sum :=
            length_encodeAll_fill _ is
          rw [Nat.zero_add, ← hsum]
          simpa using hsize
        have hnone : ∀ r ∈ ([] : List Relocation), r.pos.toNat < 0 := by simp
        exact renumberUses_usesOf d.target hnone hlength

end Draft

/-- **The code of an assembled package is that of the instructions that were emitted**, with the
numbers of their operands. A label is the position at which it was defined, and every symbolic
operand has its relocation. -/
lemma exists_target {ds : List Directive} {p : Package} (h : assemble ds = .ok p)
    (hsize : p.code.size ≤ 2 ^ 32) : ∃ target : Nat → UInt32,
      (∀ i ∈ emitted ds, ∀ index, i.operand? = some (.label index) →
        ∃ at', labelAt? ds index = some at' ∧ target index = UInt32.ofNat at') ∧
      p.code.toList = codeOf target (emitted ds) ∧
      p.relocations.toList = relocationsOf target 0 (emitted ds) := by
  rw [assemble] at h
  split at h
  · rename_i d hd
    have hwrites := Draft.writes_of_applyAll hd
    obtain ⟨hdefined, hcode, hrelocations⟩ := hwrites.of_finish h
    refine ⟨d.target, fun i hi index ho => ?_, hcode, hrelocations hsize⟩
    obtain ⟨word, hword⟩ := hdefined i hi index ho
    have hlabel : d.label? index = (labelAt? ds index).map UInt32.ofNat :=
      Draft.label?_of_applyAll hd index
    rw [hword, eq_comm, Option.map_eq_some_iff] at hlabel
    obtain ⟨at', hat, rfl⟩ := hlabel
    exact ⟨at', hat, by rw [Draft.target, hword]; rfl⟩
  · cases h

end EffectMachine
