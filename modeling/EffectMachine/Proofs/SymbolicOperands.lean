/-
What the assembler records.

A draft goes on behind a directive that is refused, as if that had not been there. When it is
finished, each symbolic operand has one relocation, and the word of a label holds the position at
which the label was first defined, whether it was used before or after.

* `Draft.after`, `Draft.written`: the draft that directives write, refused ones left out, and
  `Draft.apply_eq_error_iff`: only a further definition of a label is refused;
* `SymbolicInstruction.symbolic?`, `symbolicFrom`: symbolic operands with the positions of their
  words, and `stands_of_mem_symbolicFrom`: whatever the operands are, their words stand there;
* `Draft.finish_eq_error_iff`: a draft cannot be finished if an operand names a label that was
  never defined;
* `Relocation.Records`, `Package.Assembled`: what the relocation of an operand says, and what an
  assembled package holds;
* `assembler_records_operands`: **the assembler records exactly the symbolic operands**.
-/
import EffectMachine.Proofs.AssembledCode
import Mathlib.Data.List.Forall2

namespace EffectMachine

open SymbolicInstruction

/-! ### Directives, refused ones left out -/

namespace Draft

variable {d : Draft} {x : Directive}

/-- The draft after a directive. One that is refused changes nothing. -/
def after (d : Draft) (x : Directive) : Draft :=
  match d.apply x with
  | .ok (_, d') => d'
  | .error _ => d

/-- The draft that directives write, going on behind those that are refused. -/
def written (ds : List Directive) : Draft := ds.foldl after {}

lemma after_of_ok {a : Answer} {d' : Draft} (h : d.apply x = .ok (a, d')) : d.after x = d' := by
  rw [after, h]

lemma after_of_error {e : AssemblyError} (h : d.apply x = .error e) : d.after x = d := by
  rw [after, h]

/-- A label can be defined as long as it has not been. -/
lemma defineLabel_eq_error_iff (d : Draft) (label : Nat) (e : AssemblyError) :
    d.defineLabel label = .error e ↔
      (∃ at', d.label? label = some at') ∧ e = .duplicateLabel label := by
  rw [defineLabel, label?]
  cases hlabel : d.labels[label]? with
  | none => simp
  | some l =>
      cases l with
      | none => simp
      | some at' => simp [eq_comm]

/-- **Only a further definition of a label is refused.** -/
lemma apply_eq_error_iff {e : AssemblyError} :
    d.apply x = .error e ↔ ∃ label, x = .defineLabel label ∧
      (∃ at', d.label? label = some at') ∧ e = .duplicateLabel label := by
  cases x with
  | defineLabel label =>
      have hdefine := defineLabel_eq_error_iff d label e
      rw [apply]
      cases hd : d.defineLabel label with
      | ok d' =>
          rw [hd] at hdefine
          simpa using hdefine
      | error e' =>
          rw [hd] at hdefine
          simpa using hdefine
  | _ => simp [apply]

/-- A directive writes the instruction that it emits; a refused one emits none. -/
lemma writes_after (d : Draft) (x : Directive) : d.Writes (d.after x) x.emitted?.toList := by
  cases h : d.apply x with
  | ok answer =>
      rw [after_of_ok h]
      exact writes_of_apply h
  | error e =>
      obtain ⟨label, rfl, -⟩ := apply_eq_error_iff.mp h
      rw [after_of_error h]
      exact .nil rfl rfl rfl

lemma size_labels_after (d : Draft) (x : Directive) :
    (d.after x).labels.size = d.labels.size + x.declares := by
  cases h : d.apply x with
  | ok answer =>
      rw [after_of_ok h]
      exact (label?_of_apply h).1
  | error e =>
      obtain ⟨label, rfl, -⟩ := apply_eq_error_iff.mp h
      rw [after_of_error h]
      rfl

/-- A directive does not change where a label is in the end, also if it is refused. -/
lemma labelAfter?_after (d : Draft) (x : Directive) (index : Nat) (ds : List Directive) :
    (d.after x).labelAfter? index ds = d.labelAfter? index (x :: ds) := by
  cases h : d.apply x with
  | ok answer =>
      rw [after_of_ok h]
      exact labelAfter?_of_apply h index ds
  | error e =>
      obtain ⟨label, rfl, ⟨at', hat⟩, -⟩ := apply_eq_error_iff.mp h
      rw [after_of_error h, labelAfter?, labelAfter?, labelFrom?]
      split
      · -- the label has a position already, which stays
        rename_i hit
        rw [← hit.1, hat]
        rfl
      · rfl

lemma writes_foldl (ds : List Directive) (d : Draft) :
    d.Writes (ds.foldl after d) (emitted ds) := by
  induction ds generalizing d with
  | nil => exact .nil rfl rfl rfl
  | cons x ds ih =>
      rw [emitted_cons]
      exact (d.writes_after x).append (ih _)

lemma label?_foldl (ds : List Directive) (d : Draft) (index : Nat) :
    (ds.foldl after d).label? index = d.labelAfter? index ds := by
  induction ds generalizing d with
  | nil => rw [labelAfter?_nil, List.foldl_nil]
  | cons x ds ih => rw [List.foldl_cons, ih, labelAfter?_after]

lemma label?_written (ds : List Directive) (index : Nat) :
    (written ds).label? index = (labelAt? ds index).map UInt32.ofNat :=
  label?_foldl ds {} index

/-- A label that directives do not define is looked for behind them. -/
lemma labelFrom?_append_of_none {front : List Directive} {d : Draft} {index : Nat}
    (h : labelFrom? index d.position d.labels.size front = none) (back : List Directive) :
    labelFrom? index d.position d.labels.size (front ++ back) =
      labelFrom? index (front.foldl after d).position (front.foldl after d).labels.size back := by
  induction front generalizing d with
  | nil => rfl
  | cons x front ih =>
      rw [labelFrom?_cons] at h
      rw [List.cons_append, labelFrom?_cons]
      split at h
      · cases h
      · rename_i hmiss
        rw [if_neg hmiss, List.foldl_cons, ← (d.writes_after x).position, ← size_labels_after]
        rw [← (d.writes_after x).position, ← size_labels_after] at h
        exact ih h

/-- **A label that has been declared and has no position is defined to be the current one.** -/
lemma labelAt?_defineLabel {front : List Directive} {label : Nat}
    (hdeclared : label < (written front).labels.size)
    (hnone : (written front).label? label = none) (back : List Directive) :
    labelAt? (front ++ .defineLabel label :: back) label = some (written front).position := by
  rw [label?_written, Option.map_eq_none_iff] at hnone
  have hback := labelFrom?_append_of_none (d := {}) hnone (.defineLabel label :: back)
  rw [labelFrom?_cons, if_pos ⟨rfl, hdeclared⟩] at hback
  exact hback

/-- **A label that has a position keeps it**, whatever directives follow. -/
lemma label?_written_append {front : List Directive} {label : Nat} {at' : UInt32}
    (h : (written front).label? label = some at') (back : List Directive) :
    (written (front ++ back)).label? label = some at' := by
  rw [written, List.foldl_append, label?_foldl, labelAfter?]
  exact congrArg (Option.or · _) h

end Draft

/-! ### Symbolic operands -/

/-- The operand of an instruction, if it is symbolic. -/
def SymbolicInstruction.symbolic? (i : SymbolicInstruction) : Option Operand :=
  i.operand?.filter (·.kind?.isSome)

/-- The symbolic operands of instructions, each with the position of its word. -/
def symbolicFrom (pos : Nat) : List SymbolicInstruction → List (Nat × Operand)
  | [] => []
  | i :: is => (i.symbolic?.map (pos + 1, ·)).toList ++ symbolicFrom (pos + i.size) is

lemma exists_kind_of_symbolic? {i : SymbolicInstruction} {o : Operand}
    (h : i.symbolic? = some o) : i.operand? = some o ∧ ∃ kind, o.kind? = some kind := by
  obtain ⟨ho, hkind⟩ := Option.filter_eq_some_iff.mp h
  exact ⟨ho, Option.isSome_iff_exists.mp hkind⟩

/-- Every symbolic operand is listed once, in the order of the instructions. -/
lemma map_snd_symbolicFrom (pos : Nat) (is : List SymbolicInstruction) :
    (symbolicFrom pos is).map Prod.snd = is.filterMap symbolic? := by
  induction is generalizing pos with
  | nil => rfl
  | cons i is ih =>
      rw [symbolicFrom, List.map_append, ih, List.filterMap_cons]
      cases i.symbolic? <;> rfl

/-- The words of symbolic operands lie in the code of the instructions, behind one another. -/
lemma symbolicFrom_bounds (pos : Nat) (is : List SymbolicInstruction) :
    (symbolicFrom pos is).Pairwise (fun s s' => s.1 + 4 ≤ s'.1) ∧
      ∀ s ∈ symbolicFrom pos is, pos < s.1 ∧ s.1 + 4 ≤ pos + (is.map size).sum := by
  induction is generalizing pos with
  | nil => simp [symbolicFrom]
  | cons i is ih =>
      obtain ⟨hapart, hbounds⟩ := ih (pos + i.size)
      have hfirst : ∀ s ∈ (i.symbolic?.map (pos + 1, ·)).toList,
          s.1 = pos + 1 ∧ 5 ≤ i.size := by
        intro s hs
        obtain ⟨o, ho, rfl⟩ := Option.map_eq_some_iff.mp (Option.mem_toList.mp hs)
        exact ⟨rfl, five_le_size (exists_kind_of_symbolic? ho).1⟩
      rw [symbolicFrom, List.map_cons, List.sum_cons]
      refine ⟨List.pairwise_append.mpr ⟨?_, hapart, fun s hs s' hs' => ?_⟩, fun s hs => ?_⟩
      · cases i.symbolic? <;> simp
      · have hs := hfirst s hs
        have hs' := hbounds s' hs'
        omega
      · rcases List.mem_append.mp hs with hs | hs
        · have hs := hfirst s hs
          omega
        · have hs := hbounds s hs
          omega

/-- **The word of a symbolic operand stands at its position**, whatever the operands are. -/
lemma stands_of_mem_symbolicFrom {value : Operand → UInt32} {code : Code} (before : List UInt8)
    {is : List SymbolicInstruction}
    (hcode : code.toList = before ++ Instruction.encodeAll (is.map (fill value)))
    {s : Nat × Operand} (hs : s ∈ symbolicFrom before.length is) :
    Stands code s.1 (Word.bytes (value s.2)) := by
  induction is generalizing before with
  | nil => cases hs
  | cons i is ih =>
      rw [List.map_cons, Instruction.encodeAll_cons] at hcode
      rcases List.mem_append.mp hs with hs | hs
      · obtain ⟨o, ho, rfl⟩ := Option.map_eq_some_iff.mp (Option.mem_toList.mp hs)
        obtain ⟨byte, tail, hencode, -⟩ := exists_encode (exists_kind_of_symbolic? ho).1
        have hsplit : code.toList = (before ++ [byte]) ++ Word.bytes (value o) ++
            (tail ++ Instruction.encodeAll (is.map (fill value))) := by
          rw [hcode, hencode]
          simp
        have hstands := Stands.of_toList hsplit
        rwa [List.length_append, List.length_singleton] at hstands
      · have hlength : before.length + i.size = (before ++ (i.fill value).encode).length := by
          simp
        rw [← List.append_assoc] at hcode
        exact ih _ hcode (hlength ▸ hs)

/-- Each symbolic operand has one relocation, in the same order. -/
lemma forall₂_relocationsOf (target : Nat → UInt32) (pos : Nat) (is : List SymbolicInstruction) :
    List.Forall₂ (fun s r => s.2.relocation? target s.1 = some r) (symbolicFrom pos is)
      (relocationsOf target pos is) := by
  induction is generalizing pos with
  | nil => exact .nil
  | cons i is ih =>
      refine List.rel_append ?_ (ih _)
      rw [relocation?, symbolic?]
      cases i.operand? with
      | none => exact .nil
      | some o =>
          rw [Option.bind_some]
          cases hkind : o.kind? with
          | none => simp [Operand.relocation?, Option.filter, hkind]
          | some kind => simp [Operand.relocation?, Option.filter, hkind]

/-! ### Labels that were never defined -/

/-- The label is named by an operand, was never defined, and all labels named before were. -/
def FirstUndefined (ds : List Directive) (label : Nat) : Prop :=
  ∃ front i back, emitted ds = front ++ i :: back ∧ i.operand? = some (.label label) ∧
    labelAt? ds label = none ∧
    ∀ j ∈ front, ∀ label', j.operand? = some (.label label') → labelAt? ds label' ≠ none

/-- The first use of a label with a property belongs to the first such instruction. -/
lemma find?_usesOf_iff {f : Nat → Bool} {pos label : Nat} {is : List SymbolicInstruction} :
    (∃ at', (usesOf pos is).find? (fun use => f use.1) = some (label, at')) ↔
      ∃ front i back, is = front ++ i :: back ∧ i.operand? = some (.label label) ∧
        f label = true ∧ ∀ j ∈ front, ∀ label', j.operand? = some (.label label') →
          f label' = false := by
  induction is generalizing pos with
  | nil => simp [usesOf]
  | cons i is ih =>
      rw [usesOf, List.find?_append]
      by_cases hhit : ∃ label', i.operand? = some (.label label') ∧ f label' = true
      · obtain ⟨label', ho, hf⟩ := hhit
        have huse : i.use? pos = some (label', pos + 1) := by simp [use?, ho, Operand.use?]
        rw [huse]
        simp only [Option.toList_some, List.find?_singleton, hf, ↓reduceIte, Option.some_or,
          Option.some.injEq, Prod.mk.injEq]
        constructor
        · rintro ⟨at', rfl, -⟩
          exact ⟨[], i, is, rfl, ho, hf, by simp⟩
        · rintro ⟨front, j, back, hsplit, hj, hfj, hfront⟩
          cases front with
          | nil =>
              cases hsplit
              cases ho.symm.trans hj
              exact ⟨pos + 1, rfl, rfl⟩
          | cons k front =>
              cases hsplit
              exact absurd hf (by simp [hfront i List.mem_cons_self label' ho])
      · have hnone : (i.use? pos).toList.find? (fun use => f use.1) = none := by
          refine List.find?_eq_none.mpr fun use huse hf => hhit ⟨use.1, ?_, hf⟩
          exact (Draft.exists_label_of_use? (Option.mem_toList.mp huse)).1
        rw [hnone, Option.none_or, ih]
        constructor
        · rintro ⟨front, j, back, rfl, hj, hf, hfront⟩
          refine ⟨i :: front, j, back, rfl, hj, hf, List.forall_mem_cons.mpr ⟨?_, hfront⟩⟩
          intro label' ho
          exact Bool.eq_false_iff.mpr fun hf' => hhit ⟨label', ho, hf'⟩
        · rintro ⟨front, j, back, hsplit, hj, hf, hfront⟩
          cases front with
          | nil =>
              cases hsplit
              exact absurd ⟨label, hj, hf⟩ hhit
          | cons k front =>
              cases hsplit
              exact ⟨front, j, back, rfl, hj, hf, (List.forall_mem_cons.mp hfront).2⟩

/-- **A draft cannot be finished if and only if a label is named that was never defined**, and the
first such label is reported. -/
lemma Draft.finish_eq_error_iff {ds : List Directive} {e : AssemblyError} :
    (written ds).finish = .error e ↔
      ∃ label, FirstUndefined ds label ∧ e = .undefinedLabel label := by
  have huses : (written ds).uses.toList = usesOf 0 (emitted ds) := (writes_foldl ds {}).uses
  have hfirst : ∀ label, FirstUndefined ds label ↔ ∃ at', (usesOf 0 (emitted ds)).find?
      (fun use => ((written ds).label? use.1).isNone) = some (label, at') := by
    intro label
    refine Iff.trans ?_
      (find?_usesOf_iff (f := fun label => ((written ds).label? label).isNone)).symm
    simp [FirstUndefined, label?_written, Option.isSome_iff_ne_none]
  rw [finish, fillUses_eq, huses]
  simp only [hfirst]
  cases (usesOf 0 (emitted ds)).find? fun use => ((written ds).label? use.1).isNone with
  | none => simp
  | some use => simp [Prod.ext_iff, eq_comm]

/-! ### Finished packages -/

/-- The number of a label: the position at which it was first defined. -/
def labelNumber (ds : List Directive) (label : Nat) : UInt32 :=
  UInt32.ofNat ((labelAt? ds label).getD 0)

lemma Draft.target_written (ds : List Directive) : (written ds).target = labelNumber ds := by
  funext label
  rw [target, label?_written, labelNumber]
  cases labelAt? ds label <;> rfl

/-- The relocation says where the word of an operand is and what it refers to, and the word holds
the number that the relocation has. A label is the position at which it was first defined. -/
structure Relocation.Records (ds : List Directive) (code : Code) (s : Nat × Operand)
    (r : Relocation) : Prop where
  kind : s.2.kind? = some r.kind
  pos : r.pos.toNat = s.1
  id : r.id.toUInt32 = s.2.number (labelNumber ds)
  word : Word.read? code s.1 = some r.id.toUInt32
  label : r.kind = .code → ∃ label at', s.2 = .label label ∧ labelAt? ds label = some at' ∧
    r.id.toUInt32.toNat = at'

/-- What the package holds that directives write. The code is that of the instructions with the
numbers of their operands. Each symbolic operand has one relocation, in the same order, and the
words of relocations do not overlap, if the code is short enough for positions of 32 bits. -/
structure Package.Assembled (p : Package) (ds : List Directive) : Prop where
  code : p.code.toList =
    Instruction.encodeAll ((emitted ds).map (fill (Operand.number (labelNumber ds))))
  relocations : p.code.size < 2 ^ 32 →
    List.Forall₂ (Relocation.Records ds p.code) (symbolicFrom 0 (emitted ds)) p.relocations.toList
  apart : p.code.size < 2 ^ 32 →
    p.relocations.toList.Pairwise fun r r' => r.pos.toNat + 4 ≤ r'.pos.toNat

/-- A label is defined inside the code, or at its end. -/
lemma labelAt?_le {ds : List Directive} {label at' : Nat} (h : labelAt? ds label = some at') :
    at' ≤ ((emitted ds).map size).sum := by
  obtain ⟨front, back, hsplit, rfl⟩ := exists_of_labelFrom? h
  rw [hsplit, List.map_append, List.sum_append]
  omega

/-- The relocation of an operand in a finished package. -/
lemma Relocation.records_of_relocation? {ds : List Directive} {code : Code} {s : Nat × Operand}
    {r : Relocation}
    (hcode : code.toList =
      Instruction.encodeAll ((emitted ds).map (fill (Operand.number (labelNumber ds)))))
    (hsize : ((emitted ds).map size).sum < 2 ^ 32)
    (hdefined : ∀ label, s.2 = .label label → labelAt? ds label ≠ none)
    (hs : s ∈ symbolicFrom 0 (emitted ds))
    (hr : s.2.relocation? (labelNumber ds) s.1 = some r) : r.Records ds code s := by
  obtain ⟨kind, hkind, rfl⟩ := Option.map_eq_some_iff.mp hr
  have hbounds := (symbolicFrom_bounds 0 (emitted ds)).2 s hs
  have hstands : Stands code s.1 (Word.bytes (s.2.number (labelNumber ds))) :=
    stands_of_mem_symbolicFrom [] hcode hs
  refine ⟨hkind, UInt32.toNat_ofNat_of_lt' (by omega : s.1 < 2 ^ 32), by simp, ?_, fun hlabel => ?_⟩
  · rw [Word.read?_of_stands hstands]
    simp
  · obtain ⟨pos, o⟩ := s
    cases o with
    | label label =>
        obtain ⟨at', hat⟩ := Option.ne_none_iff_exists'.mp (hdefined label rfl)
        have hle := labelAt?_le hat
        refine ⟨label, at', rfl, hat, ?_⟩
        simp only [Operand.number, labelNumber, hat, Option.getD_some, UInt32.toUInt32_toInt32]
        exact UInt32.toNat_ofNat_of_lt' (by omega : at' < 2 ^ 32)
    | global g => cases g <;> cases hkind <;> cases hlabel
    | _ => cases hkind <;> cases hlabel

/-- **What a draft is finished to.** -/
lemma Draft.assembled_of_finish {ds : List Directive} {p : Package}
    (h : (written ds).finish = .ok p) : p.Assembled ds := by
  obtain ⟨hdefined, hcode, hrelocations⟩ := (writes_foldl ds {}).of_finish h
  change ∀ i ∈ emitted ds, ∀ index, _ → ∃ at', (written ds).label? index = some at' at hdefined
  change _ = codeOf (written ds).target (emitted ds) at hcode
  change _ → _ = relocationsOf (written ds).target 0 (emitted ds) at hrelocations
  rw [target_written] at hcode hrelocations
  have hlength : p.code.size = ((emitted ds).map size).sum := by
    rw [← Array.length_toList, hcode, codeOf, length_encodeAll_fill]
  have hall : p.code.size < 2 ^ 32 → List.Forall₂ (Relocation.Records ds p.code)
      (symbolicFrom 0 (emitted ds)) p.relocations.toList := by
    intro hsize
    rw [hrelocations hsize.le]
    obtain ⟨hcount, hget⟩ :=
      List.forall₂_iff_get.mp (forall₂_relocationsOf (labelNumber ds) 0 (emitted ds))
    refine List.forall₂_iff_get.mpr ⟨hcount, fun k hk hk' => ?_⟩
    have hs := List.get_mem (symbolicFrom 0 (emitted ds)) ⟨k, hk⟩
    refine Relocation.records_of_relocation? hcode (hlength ▸ hsize) (fun label hlabel => ?_) hs
      (hget k hk hk')
    obtain ⟨i, hi, ho⟩ := List.mem_filterMap.mp
      (map_snd_symbolicFrom 0 (emitted ds) ▸ List.mem_map_of_mem (f := Prod.snd) hs)
    obtain ⟨at', hat⟩ := hdefined i hi label (hlabel ▸ (exists_kind_of_symbolic? ho).1)
    rw [label?_written] at hat
    rintro hnone
    rw [hnone] at hat
    cases hat
  refine ⟨hcode, hall, fun hsize => ?_⟩
  have hpos : p.relocations.toList.map (·.pos.toNat) =
      (symbolicFrom 0 (emitted ds)).map Prod.fst := by
    have heq : List.Forall₂ (· = ·) (p.relocations.toList.map (·.pos.toNat))
        ((symbolicFrom 0 (emitted ds)).map Prod.fst) :=
      List.forall₂_map_left_iff.mpr <| List.forall₂_map_right_iff.mpr <|
        (hall hsize).flip.imp fun r s hr => hr.pos
    rwa [List.forall₂_eq_eq_eq] at heq
  have hpairs := (symbolicFrom_bounds 0 (emitted ds)).1
  rw [← List.pairwise_map (f := Prod.fst) (R := fun n m => n + 4 ≤ m), ← hpos,
    List.pairwise_map] at hpairs
  exact hpairs

/-- **The assembler records exactly the symbolic operands.** Whatever directives are given, the
draft that they write cannot be finished if and only if an operand names a label that was never
defined, and the first such label is reported. Otherwise the package holds the code of the
instructions with the numbers of their operands, and one relocation for each symbolic operand. The
positions of these are those of their words, whatever the operands are. A label that has been
declared is defined to be the current position, if it has none; otherwise it cannot be defined
again, and keeps its position. -/
theorem assembler_records_operands (ds : List Directive) :
    (∀ e, (Draft.written ds).finish = .error e ↔
      ∃ label, FirstUndefined ds label ∧ e = .undefinedLabel label) ∧
    (∀ p, (Draft.written ds).finish = .ok p → p.Assembled ds) ∧
    (symbolicFrom 0 (emitted ds)).map Prod.snd = (emitted ds).filterMap symbolic? ∧
    (∀ (value : Operand → UInt32), ∀ s ∈ symbolicFrom 0 (emitted ds),
      Word.read? (Instruction.encodeAll ((emitted ds).map (fill value))).toArray s.1 =
        some (value s.2)) ∧
    ∀ front back label, ds = front ++ .defineLabel label :: back →
      (∀ e, (Draft.written front).apply (.defineLabel label) = .error e ↔
        (∃ at', (Draft.written front).label? label = some at') ∧ e = .duplicateLabel label) ∧
      (∀ at', (Draft.written front).label? label = some at' →
        (Draft.written ds).label? label = some at') ∧
      (label < (Draft.written front).labels.size → (Draft.written front).label? label = none →
        labelAt? ds label = some (Draft.written front).position) := by
  refine ⟨fun e => Draft.finish_eq_error_iff, fun p h => Draft.assembled_of_finish h,
    map_snd_symbolicFrom 0 _, fun value s hs => ?_,
    fun front back label hds => ⟨fun e => ?_, fun at' hat => ?_, fun hdeclared hnone => ?_⟩⟩
  · exact Word.read?_of_stands (stands_of_mem_symbolicFrom [] rfl hs)
  · rw [Draft.apply_eq_error_iff]
    simp
  · rw [hds]
    exact Draft.label?_written_append hat _
  · rw [hds]
    exact Draft.labelAt?_defineLabel hdeclared hnone back

/-- Two labels, of which the first is used before and after its definition and is defined twice;
the second is defined or not. -/
def jumpDirectives (both : Bool) : List Directive :=
  [.declareLabel, .declareLabel, .declareClass "Jump" .user 0, .emit (.natural (.label 0)),
    .emit (.create (.cls 0) 2), .emit (.natural (.label 1)), .defineLabel 0, .emit .ret,
    .emit (.natural (.label 0)), .defineLabel 0, .emit (.natural (.fixed 7))] ++
  if both then [.defineLabel 1] else []

/-- The package of `jumpDirectives`. -/
def jumpPackage : Package where
  classes := #[⟨"Jump", .user, 0⟩]
  relocations := #[⟨.code, 16, 1⟩, ⟨.cls, 0, 6⟩, ⟨.code, 27, 12⟩, ⟨.code, 16, 18⟩]
  code := #[2, 16, 0, 0, 0, 5, 0, 0, 0, 0, 2, 2, 27, 0, 0, 0, 7, 2, 16, 0, 0, 0, 2, 7, 0, 0, 0]

/-- A label that is used twice and defined twice is the position of its first definition; a label
that is used and not defined is reported. -/
theorem assembler_records_operands_jumps :
    (Draft.written (jumpDirectives true)).finish = .ok jumpPackage ∧
    jumpPackage.code.size < 2 ^ 32 ∧ jumpPackage.Assembled (jumpDirectives true) ∧
    (Draft.written (jumpDirectives false)).finish = .error (.undefinedLabel 1) ∧
    FirstUndefined (jumpDirectives false) 1 := by
  have hfinish : (Draft.written (jumpDirectives true)).finish = .ok jumpPackage := by rfl
  have hrefused : (Draft.written (jumpDirectives false)).finish = .error (.undefinedLabel 1) := by
    rfl
  obtain ⟨label, hfirst, ⟨⟩⟩ :=
    ((assembler_records_operands (jumpDirectives false)).1 _).mp hrefused
  exact ⟨hfinish, by decide, (assembler_records_operands _).2.1 _ hfinish, hrefused, hfirst⟩

end EffectMachine
