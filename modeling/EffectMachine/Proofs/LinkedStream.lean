/-
The instructions of a linked program.

If packages have been assembled, the code of a program that is linked from them is made of whole
instructions: the two that enter the program, those that were emitted into the packages, with
linked numbers for their operands, and those that start the program.

* `Operand.linked?`, `SymbolicInstruction.linked?`: operands and instructions with linked numbers;
* `relocate_codeOf`: relocating assembled code changes the operands of its instructions;
* `exists_value`: the instructions of a package in a program;
* `link_preserves_instructions`: **a linked program is disassembled into the instructions that
  were emitted into its packages, with linked operands**, and labels are positions of instructions.
-/
import EffectMachine.Proofs.AssembledCode
import EffectMachine.Proofs.LinkedCode

namespace EffectMachine

/-! ### Linked operands -/

/-- The linked number of an operand of a package that directives have written: of a class and of
an own global behind the base of the package, of a method by its name, of an import the object of
the package, of a label its position behind the base of the package. -/
def Operand.linked? (P : Program) (y : Placement) (ds : List Directive) :
    Operand → Option UInt32
  | fixed n => some n.toUInt32
  | cls index => some (UInt32.ofNat (classBase y.before + 1 + index.toNat))
  | method index =>
    ((y.package.methodNames[index.toNat]?).bind fun name => P.methodId? name).map (·.index)
  | global (.own index) => some (UInt32.ofNat (y.global + 1 + index.toNat))
  | global (.imported index) =>
    ((y.package.imports[index.toNat]?).bind fun name => y.importGlobal? name).map UInt32.ofNat
  | label index => (labelAt? ds index).map fun pos => UInt32.ofNat (codeBase y.before + pos)

/-- The instruction with the linked number of its operand. -/
def SymbolicInstruction.linked? (P : Program) (y : Placement) (ds : List Directive)
    (i : SymbolicInstruction) : Option Instruction :=
  match i.operand? with
  | none => some (i.fill fun _ => 0)
  | some o => (o.linked? P y ds).map fun w => i.fill fun _ => w

open SymbolicInstruction

lemma linked?_eq_some {P : Program} {y : Placement} {ds : List Directive}
    {i : SymbolicInstruction} {value : Operand → UInt32}
    (h : ∀ o, i.operand? = some o → o.linked? P y ds = some (value o)) :
    i.linked? P y ds = some (i.fill value) := by
  rw [SymbolicInstruction.linked?]
  cases ho : i.operand? with
  | none => exact congrArg some (fill_congr fun o ho' => by cases ho.symm.trans ho')
  | some o =>
      dsimp only
      rw [h o ho, Option.map_some]
      refine congrArg some (fill_congr fun o' ho' => ?_)
      cases Option.some.inj (ho.symm.trans ho')
      rfl

/-! ### Relocating assembled code -/

/-- The number of an operand after relocation. -/
def Operand.relocated (b : Bases) (p : Package) (target : Nat → UInt32) (o : Operand) : UInt32 :=
  match o.kind? with
  | none => o.number target
  | some kind =>
    match b.resolve p ⟨kind, (o.number target).toInt32, 0⟩ with
    | .ok n => n.toUInt32
    | .error _ => 0

lemma relocated_of_none {b : Bases} {p : Package} {target : Nat → UInt32} {o : Operand}
    (h : o.kind? = none) : o.relocated b p target = o.number target := by
  rw [Operand.relocated, h]

lemma relocated_of_resolve {b : Bases} {p : Package} {target : Nat → UInt32} {o : Operand}
    {kind : RelocationKind} (h : o.kind? = some kind) {n : Int32}
    (hn : b.resolve p ⟨kind, (o.number target).toInt32, 0⟩ = .ok n) :
    o.relocated b p target = n.toUInt32 := by
  rw [Operand.relocated, h]
  dsimp only
  rw [hn]

lemma relocate_instruction {b : Bases} {p : Package} {target : Nat → UInt32}
    {i : SymbolicInstruction} {before rest : List UInt8} {rs : List Relocation} {code : Code}
    (hsize : before.length + i.size ≤ 2 ^ 32)
    (h : relocate b p ((i.relocation? target before.length).toList ++ rs)
      (before ++ (i.fill (Operand.number target)).encode ++ rest).toArray = .ok code) :
    (∀ o, i.operand? = some o → ∀ kind, o.kind? = some kind →
      b.resolve p ⟨kind, (o.number target).toInt32, 0⟩ =
        .ok (o.relocated b p target).toInt32) ∧
    relocate b p rs
      (before ++ (i.fill (Operand.relocated b p target)).encode ++ rest).toArray = .ok code := by
  cases hr : i.relocation? target before.length with
  | none =>
      have hkind : ∀ o, i.operand? = some o → o.kind? = none := by
        intro o ho
        simpa [relocation?, ho, Operand.relocation?] using hr
      have hfill : i.fill (Operand.number target) = i.fill (Operand.relocated b p target) :=
        fill_congr fun o ho => (relocated_of_none (hkind o ho)).symm
      rw [hr, hfill] at h
      exact ⟨fun o ho kind hk => absurd hk (by simp [hkind o ho]), h⟩
  | some r =>
      obtain ⟨o, ho, hr'⟩ := Option.bind_eq_some_iff.mp hr
      obtain ⟨kind, hkind, rfl⟩ := Option.map_eq_some_iff.mp hr'
      obtain ⟨byte, tail, hencode, -⟩ := exists_encode ho
      have hlength := five_le_size ho
      have hpos : (UInt32.ofNat (before.length + 1)).toNat = (before ++ [byte]).length := by
        rw [UInt32.toNat_ofNat_of_lt' (by show _ < 2 ^ 32; omega), List.length_append]
        rfl
      rw [hr] at h
      obtain ⟨n, code₁, hn, hpatch, hrest⟩ := relocate_cons h
      have hvalue := relocated_of_resolve hkind hn
      have hcode : before ++ (i.fill (Operand.number target)).encode ++ rest =
          before ++ [byte] ++ Word.bytes (o.number target) ++ (tail ++ rest) := by
        rw [hencode]
        simp
      have hcode' : before ++ (i.fill (Operand.relocated b p target)).encode ++ rest =
          before ++ [byte] ++ Word.bytes n.toUInt32 ++ (tail ++ rest) := by
        rw [hencode, hvalue]
        simp
      dsimp only at hpatch
      rw [hcode, hpos, Word.patch?_middle, ← hcode'] at hpatch
      cases hpatch
      refine ⟨fun o' ho' kind' hkind' => ?_, hrest⟩
      cases Option.some.inj (ho.symm.trans ho')
      cases Option.some.inj (hkind.symm.trans hkind')
      rw [hvalue]
      exact hn

/-- **Relocating assembled code changes the operands of its instructions**, and nothing else. -/
lemma relocate_codeOf {b : Bases} {p : Package} {target : Nat → UInt32}
    {is : List SymbolicInstruction} {before : List UInt8} {code : Code}
    (hsize : before.length + (is.map size).sum ≤ 2 ^ 32)
    (h : relocate b p (relocationsOf target before.length is)
      (before ++ codeOf target is).toArray = .ok code) :
    (∀ i ∈ is, ∀ o, i.operand? = some o → ∀ kind, o.kind? = some kind →
      b.resolve p ⟨kind, (o.number target).toInt32, 0⟩ =
        .ok (o.relocated b p target).toInt32) ∧
    code.toList =
      before ++ Instruction.encodeAll (is.map (fill (Operand.relocated b p target))) := by
  induction is generalizing before with
  | nil =>
      cases h
      simp [codeOf]
  | cons i is ih =>
      rw [List.map_cons, List.sum_cons] at hsize
      rw [relocationsOf, codeOf_cons, ← List.append_assoc] at h
      obtain ⟨hfirst, hrest⟩ := relocate_instruction (by omega) h
      have hlength : (before ++ (i.fill (Operand.relocated b p target)).encode).length =
          before.length + i.size := by simp
      rw [← hlength] at hrest
      obtain ⟨hlater, hcode⟩ := ih (by rw [hlength]; omega) hrest
      refine ⟨List.forall_mem_cons.mpr ⟨hfirst, hlater⟩, ?_⟩
      rw [hcode, List.map_cons, Instruction.encodeAll_cons, List.append_assoc]

/-! ### The instructions of a package -/

lemma toNat_of_toInt32 {index : UInt32} {i : Nat} (h : index.toInt32.toInt = i) :
    index.toNat = i := by
  have hword : (index.toNat : Int) = index.toInt32.toInt % 2 ^ 32 := toNat_toUInt32 index.toInt32
  have hlt := index.toInt32.toInt_lt
  omega

/-- What an operand is relocated to is its linked number. -/
lemma linked?_of_means {P : Program} {y : Placement} {ds : List Directive}
    {target : Nat → UInt32} {o : Operand} {kind : RelocationKind} {pos w : UInt32}
    (hkind : o.kind? = some kind)
    (hlabel : ∀ index, o = .label index →
      ∃ at', labelAt? ds index = some at' ∧ target index = UInt32.ofNat at')
    (h : y.Means P ⟨kind, (o.number target).toInt32, pos⟩ w) : o.linked? P y ds = some w := by
  cases o with
  | fixed n => cases hkind
  | cls index =>
      cases hkind
      obtain ⟨i, hi, -, rfl⟩ := h
      have hindex : index.toNat = i := toNat_of_toInt32 hi
      rw [Operand.linked?, hindex]
  | method index =>
      cases hkind
      obtain ⟨i, name, hi, hname, hm⟩ := h
      have hindex : index.toNat = i := toNat_of_toInt32 hi
      rw [Operand.linked?, hindex, hname, Option.bind_some, hm]
      rfl
  | label index =>
      cases hkind
      obtain ⟨at', hat, htarget⟩ := hlabel index rfl
      have hw : w = target index + UInt32.ofNat (codeBase y.before) := h
      rw [Operand.linked?, hat, Option.map_some, hw, htarget, ← UInt32.ofNat_add, Nat.add_comm]
  | global g =>
      cases g with
      | own index =>
          cases hkind
          have hw : w = index + UInt32.ofNat (y.global + 1) := h
          rw [Operand.linked?, hw, UInt32.ofNat_add, UInt32.ofNat_toNat, UInt32.add_comm]
      | imported index =>
          cases hkind
          obtain ⟨i, name, slot, hi, hname, hslot, rfl⟩ := h
          have hindex : index.toNat = i := toNat_of_toInt32 hi
          rw [Operand.linked?, hindex, hname, Option.bind_some, hslot]
          rfl

/-- **The code of an assembled package in a program** is that of the instructions that were
emitted, with linked operands. -/
lemma exists_value {P : Program} {ps : List (String × Package)} {entry : String}
    {y : Placement} {ds : List Directive} (hlaid : P.LaidOut ps entry)
    (hy : y ∈ placements [] ps) (hds : assemble ds = .ok y.package)
    (hsize : y.package.code.size ≤ 2 ^ 32) :
    ∃ value, (∀ i ∈ emitted ds, i.linked? P y ds = some (i.fill value)) ∧
      (y.code P.methodNames).toList = Instruction.encodeAll ((emitted ds).map (fill value)) := by
  obtain ⟨target, hlabels, hcode, hrelocations⟩ := exists_target hds hsize
  have hrelocated := hlaid.relocated y hy
  have hcode' : y.package.code = ([] ++ codeOf target (emitted ds)).toArray :=
    Array.toList_inj.mp hcode
  rw [Placement.relocated, hrelocations, hcode'] at hrelocated
  have htotal : ([] : List UInt8).length + ((emitted ds).map size).sum ≤ 2 ^ 32 := by
    rw [← Array.length_toList, hcode, codeOf, length_encodeAll_fill] at hsize
    simpa using hsize
  obtain ⟨hresolve, hstream⟩ := relocate_codeOf htotal hrelocated
  refine ⟨_, fun i hi => linked?_eq_some fun o ho => ?_, hstream⟩
  cases hkind : o.kind? with
  | none =>
      cases o with
      | fixed n => rfl
      | global g => cases g <;> cases hkind
      | _ => cases hkind
  | some kind =>
      refine linked?_of_means hkind (fun index hindex => ?_)
        (Placement.means_of_resolve hlaid hy (hresolve i hi o ho kind hkind))
      exact hlabels i hi index (hindex ▸ ho)

/-! ### The instructions of a program -/

lemma encodeAll_flatMap {α : Type} (f : α → List Instruction) (xs : List α) :
    Instruction.encodeAll (xs.flatMap f) = xs.flatMap fun x => Instruction.encodeAll (f x) :=
  List.flatMap_assoc

lemma decodeAll_of_toList {code : Code} {is : List Instruction}
    (h : code.toList = Instruction.encodeAll is) :
    Instruction.decodeAll code = .ok (Instruction.placed 0 is) := by
  have hwhole : code.toList = [] ++ Instruction.encodeAll is ++ [] := by simpa using h
  refine Instruction.decodeFrom_of_stands (Stands.of_toList hwhole) ?_
  rw [← Array.length_toList, h, Nat.zero_add]

/-- A label is where an instruction of its package begins, or where the package ends. -/
lemma exists_of_label {P : Program} {y : Placement} {ds : List Directive}
    {i : SymbolicInstruction} {value : Operand → UInt32} {index : Nat}
    (hlinked : i.linked? P y ds = some (i.fill value)) (ho : i.operand? = some (.label index)) :
    ∃ front back, emitted ds = front ++ back ∧ (Operand.label index).linked? P y ds =
      some (UInt32.ofNat (codeBase y.before + (front.map size).sum)) := by
  rw [SymbolicInstruction.linked?, ho] at hlinked
  obtain ⟨w, hw, -⟩ := Option.map_eq_some_iff.mp hlinked
  obtain ⟨at', hat, -⟩ := Option.map_eq_some_iff.mp hw
  obtain ⟨front, back, hsplit, rfl⟩ := exists_of_labelFrom? hat
  refine ⟨front, back, hsplit, ?_⟩
  rw [Operand.linked?, hat, Option.map_some, Nat.zero_add]

/-- The instructions of a package begin behind its base. -/
lemma mem_positions_of_stream {P : Program} {ps : List (String × Package)} {entry : String}
    {stream : Placement → List Instruction} (hlaid : P.LaidOut ps entry)
    (hcode : ∀ y ∈ placements [] ps,
      (y.code P.methodNames).toList = Instruction.encodeAll (stream y))
    {y : Placement} (hy : y ∈ placements [] ps) {front back : List Instruction}
    (hstream : stream y = front ++ back) (start : List Instruction) (hstart : start ≠ []) :
    codeBase y.before + (Instruction.encodeAll front).length ∈
      (Instruction.placed 0
        (entryInstructions ++ (placements [] ps).flatMap stream ++ start)).map Prod.fst := by
  obtain ⟨others, later, hsplit, hbefore⟩ := mem_placements.mp hy
  rw [List.nil_append] at hbefore
  have hplaces : placements [] ps =
      placements [] others ++ y :: placements (others ++ [(y.name, y.package)]) later := by
    rw [hsplit, placements_append, placements, List.nil_append, ← hbefore]
  have hmem : ∀ z ∈ placements [] others, z ∈ placements [] ps :=
    fun z hz => hplaces ▸ List.mem_append_left _ hz
  have hlength : (Instruction.encodeAll
      (entryInstructions ++ (placements [] others).flatMap stream)).length =
        codeBase y.before := by
    have hothers := length_flatMap_code fun z hz => hlaid.relocated z (hmem z hz)
    rw [List.flatMap_congr fun z hz => hcode z (hmem z hz), ← encodeAll_flatMap] at hothers
    rw [Instruction.encodeAll_append, List.length_append, hothers, hbefore, codeBase]
    rfl
  rw [hplaces, List.flatMap_append, List.flatMap_cons, hstream, ← hlength, ← List.length_append,
    ← Instruction.encodeAll_append]
  generalize (placements (others ++ _) later).flatMap stream = rest
  refine Nat.zero_add (List.length _) ▸ Instruction.mem_positions 0 ?_
    (List.append_ne_nil_of_right_ne_nil (back ++ rest) hstart)
  simp only [List.append_assoc]

/-- The instructions of a program of packages that scripts have written: those that enter the
program, those that were emitted into each package, with linked operands, those that initialise
each package, and those that call the main method. -/
def linkedInstructions (P : Program) (script : String → List Directive) (ys : List Placement)
    (slot : Nat) (main : MethodId) : List (Option Instruction) :=
  entryInstructions.map some ++
    ys.flatMap (fun y => (emitted (script y.name)).map (·.linked? P y (script y.name))) ++
    (ys.flatMap Placement.initInstructions ++ mainInstructions slot main).map some

/-- **A linked program is disassembled into the instructions that were emitted into its
packages**, in the order in which these are linked, with linked numbers for symbolic operands. In
front of them stand the instructions that enter the program, and behind them those that initialise
the packages and call the main method. Labels are positions of instructions. -/
theorem link_preserves_instructions (lib : Library) (entry : String)
    (script : String → List Directive)
    (hscript : ∀ name p, lib.source.Member entry name p → assemble (script name) = .ok p)
    {journal journal' : Journal} {P : Program}
    (h : link lib.source entry journal = .ok P journal') (hsize : P.code.size ≤ 2 ^ 32) :
    ∃ ps, lib.source.Closure entry ps ∧ lib.source.LinksInOrder entry journal ps ∧
      ∃ lines main slot,
      P.methodId? "main" = some main ∧ globalOf? ps entry = some slot ∧
      Instruction.decodeAll P.code = .ok lines ∧
      lines.map (fun line => some line.2) =
        linkedInstructions P script (placements [] ps) slot main ∧
      ∀ y ∈ placements [] ps, ∀ i ∈ emitted (script y.name), ∀ index,
        i.operand? = some (.label index) →
          ∃ w, (Operand.label index).linked? P y (script y.name) = some w ∧
            w.toNat ∈ lines.map Prod.fst := by
  obtain ⟨l, ps, -, -, hclosure, horder, -, hlaid⟩ := exists_laidOut h
  have hds : ∀ y ∈ placements [] ps, assemble (script y.name) = .ok y.package := by
    intro y hy
    obtain ⟨front, back, hsplit, -⟩ := mem_placements.mp hy
    exact hscript _ _ ((hclosure.member_iff _ _).mpr (by simp [hsplit]))
  have hroom : ∀ y ∈ placements [] ps, codeBase y.before + y.package.code.size < 2 ^ 32 :=
    fun y hy => (Placement.codeBase_le hy).trans_lt (hlaid.codeBase_lt.trans_le hsize)
  choose! value hlinked hcode using fun y (hy : y ∈ placements [] ps) =>
    exists_value hlaid hy (hds y hy) ((Nat.le_add_left _ _).trans (hroom y hy).le)
  obtain ⟨main, slot, hmain, hslot, hprogram⟩ := hlaid.code
  -- the whole code is that of instructions
  have hall : P.code.toList = Instruction.encodeAll (entryInstructions ++
      (placements [] ps).flatMap (fun y => (emitted (script y.name)).map (fill (value y))) ++
      ((placements [] ps).flatMap Placement.initInstructions ++ mainInstructions slot main)) := by
    rw [hprogram, entryCode_eq, startCode_eq, List.flatMap_congr hcode, ← encodeAll_flatMap,
      ← Instruction.encodeAll_append, ← Instruction.encodeAll_append]
  refine ⟨ps, hclosure, horder, _, main, slot, hmain, hslot, decodeAll_of_toList hall, ?_, ?_⟩
  · have hsome : ∀ lines : List (Nat × Instruction),
        lines.map (fun line => some line.2) = (lines.map Prod.snd).map some := fun lines => by simp
    rw [hsome, Instruction.map_snd_placed, List.map_append, List.map_append, List.map_flatMap,
      linkedInstructions]
    congr 2
    refine List.flatMap_congr fun y hy => ?_
    rw [List.map_map]
    exact List.map_congr_left fun i hi => (hlinked y hy i hi).symm
  · intro y hy i hi index ho
    obtain ⟨front, back, hsplit, hlabel⟩ := exists_of_label (hlinked y hy i hi) ho
    refine ⟨_, hlabel, ?_⟩
    have hstream : (emitted (script y.name)).map (fill (value y)) =
        front.map (fill (value y)) ++ back.map (fill (value y)) := by
      rw [hsplit, List.map_append]
    have hposition := mem_positions_of_stream hlaid hcode hy hstream
      ((placements [] ps).flatMap Placement.initInstructions ++ mainInstructions slot main)
      (by simp [mainInstructions])
    have hle : (front.map size).sum ≤ y.package.code.size := by
      have hlength := congrArg List.length (hcode y hy)
      rw [Array.length_toList, size_of_relocate (hlaid.relocated y hy), length_encodeAll_fill,
        hsplit, List.map_append, List.sum_append] at hlength
      omega
    have hlt := hroom y hy
    rw [length_encodeAll_fill] at hposition
    rwa [UInt32.toNat_ofNat_of_lt' (by show _ < 2 ^ 32; omega)]

/-- What is written into two packages. The application refers to its class, to methods, to its
object and to that of the other package, and to a label that is defined later; the other package
refers to a global of its own. -/
def greetingScript (name : String) : List Directive :=
  if name = "app" then [
    .importPackage "text", .importPackage ".",
    .declareClass "App" .user 0, .declareMethod "main", .declareMethod "show", .declareLabel,
    .emit (.create (.cls 0) 0), .emit .ret,
    .implement 0 0,
    .emit (.natural (.label 0)), .emit (.store 2), .emit (.globalLoad (.imported 1)),
    .emit (.globalLoad (.imported 0)),
    .defineLabel 0,
    .emit (.call 1 0)]
  else [
    .declareGlobal, .declareClass "Text" .user 0, .declareMethod "show",
    .emit (.natural (.fixed (-1))), .emit (.globalStore (.own 0)),
    .emit (.create (.cls 0) 0), .emit .ret,
    .implement 0 0, .emit (.globalLoad (.own 0)), .emit .ret]

def greeting : Library where
  entries := ["app", "text"].map fun name =>
    (name, (assemble (greetingScript name)).toOption.getD {})

/-- Two packages that refer to all there is, linked. -/
theorem link_preserves_instructions_greeting :
    (∀ name p, greeting.source.Member "app" name p → assemble (greetingScript name) = .ok p) ∧
    ∃ P journal, link greeting.source "app" {} = .ok P journal ∧ P.code.size ≤ 2 ^ 32 ∧
    ∃ ps, greeting.source.Closure "app" ps ∧ greeting.source.LinksInOrder "app" {} ps ∧
      ∃ lines main slot,
      P.methodId? "main" = some main ∧ globalOf? ps "app" = some slot ∧
      Instruction.decodeAll P.code = .ok lines ∧
      lines.map (fun line => some line.2) =
        linkedInstructions P greetingScript (placements [] ps) slot main ∧
      ∀ y ∈ placements [] ps, ∀ i ∈ emitted (greetingScript y.name), ∀ index,
        i.operand? = some (.label index) →
          ∃ w, (Operand.label index).linked? P y (greetingScript y.name) = some w ∧
            w.toNat ∈ lines.map Prod.fst := by
  have hscript : ∀ name p, greeting.source.Member "app" name p →
      assemble (greetingScript name) = .ok p := by
    intro name p hmember
    have hok : ∀ n ∈ ["app", "text"], (assemble (greetingScript n)).isOk = true := by
      decide +kernel
    obtain ⟨n, hn, heq⟩ := List.mem_map.mp (Library.load_eq_ok hmember.2)
    cases heq
    have hname := hok name hn
    cases hassemble : assemble (greetingScript name) with
    | ok p => rfl
    | error e =>
        rw [hassemble] at hname
        cases hname
  have hprogram : (greeting.program? "app").any (fun P => decide (P.code.size ≤ 2 ^ 32)) = true := by
    decide +kernel
  obtain ⟨P, hP, hsize⟩ := (Option.any_eq_true _ _).mp hprogram
  obtain ⟨journal, hlink⟩ := Library.program?_eq_some.mp hP
  rw [decide_eq_true_eq] at hsize
  exact ⟨hscript, P, journal, hlink, hsize,
    link_preserves_instructions greeting "app" greetingScript hscript hlink hsize⟩

end EffectMachine
