/-
The code that starts a program.

In front of all packages stand two instructions that enter the start code behind them. The start
code has one block for each package, which initialises it and keeps its object, and ends with the
call of the main method.

* `Machine.execute_create`, `Machine.execute_call`: the two instructions that initialise a package;
* `blockPos`: where the block of a package stands;
* `Program.StartUp`: **the instructions of the start code and what they refer to**, and
  `exists_startUp`: so they are in every linked program;
* `Config.At`: the run executes the instruction at a position next, in a frame;
* `Config.Starting`, `Config.Entered`, `Config.Returned`: the run is about to initialise a package,
  it enters its initialiser, and it has come back from it. One lemma for each instruction of the
  start code says what it leads to.
-/
import EffectMachine.Proofs.LinkedStream
import EffectMachine.Proofs.MachineSizes

namespace EffectMachine

/-! ### Instructions of the start code -/

namespace Machine

variable {P : Program} {m : Machine}

/-- An object without fields takes no memory. -/
lemma execute_create {cls : ClassId} {base : UInt8}
    (h : Instruction.decode P.code m.thread.pos.toNat = .ok (.create cls base))
    (hcls : P.fieldCount cls = 0) (hroom : m.thread.frame + base.toNat ≤ m.thread.registers.size) :
    execute P m = .ok none ((m.passed (.create cls base)).holding ⟨cls, 0⟩) := by
  have hslice : m.thread.registers.slice (m.thread.frame + base.toNat) (P.fieldCount cls) =
      .ok [] := by
    rw [hcls, Registers.slice, if_pos (by omega)]
    simp
  have halloc : alloc P cls [] (m.passed (.create cls base)) =
      .ok ⟨cls, 0⟩ (m.passed (.create cls base)) := by
    simp [alloc, tracing, Image.alloc, Image.tracing, Heap.alloc, Image.reportCollection, hcls,
      bind, EStateM.bind, pure, EStateM.pure]
  exact execute_of_executes h (.create hslice halloc)

/-- A call opens a frame behind the return record of its own, if no more is in use. -/
lemma execute_call {method : MethodId}
    (h : Instruction.decode P.code m.thread.pos.toNat = .ok (.call method 2))
    (hend : recordSize ≤ m.thread.frameEnd) (hroom : m.thread.frame + 4 ≤ m.thread.registers.size) :
    execute P m = .ok (some method) { m.passed (.call method 2) with
      thread := { (m.passed (.call method 2)).thread with
        frame := m.thread.frame + 2
        frameEnd := max (m.thread.frameEnd - 2) recordSize
        registers := (m.thread.registers.setIfInBounds (m.thread.frame + 2) (P.nat 2)).setIfInBounds
          (m.thread.frame + 3) (P.int (m.thread.pos + 6).toInt32) } } := by
  have hunset : (m.passed (.call method 2)).thread.registers.unset
      (m.thread.frame + m.thread.frameEnd) (m.thread.frame + 2) = m.thread.registers :=
    Registers.unset_of_le _ (Nat.add_le_add_left hend _)
  have hopens := execute_of_executes h (.call (Nat.le_refl _) hroom)
  rw [opened] at hopens
  exact hopens.trans (by rw [← hunset]; rfl)

end Machine

/-! ### Where they stand -/

/-- Where the block of a package stands, by the number of packages before it. Behind the last one
stands the call of the main method. -/
def blockPos (ps : List (String × Package)) (i : Nat) : Nat := codeBase ps + 17 * i

/-- The instructions that start a program, and what they refer to: the object of the entry package
is kept in the given slot, and the main method has the given number. -/
structure Program.StartUp (P : Program) (ps : List (String × Package)) (slot : Nat)
    (main : MethodId) : Prop where
  /-- The start code is entered by a call on its own object. -/
  enter : Instruction.decode P.code 0 = .ok (.create .programInit 0)
  enterCall : Instruction.decode P.code 6 = .ok (.call .call 0)
  enterInline : P.fieldCount .programInit = 0
  enterDispatch : P.dispatch .programInit .call = some (Linker.starter ps)
  /-- A package is initialised by a call on an object that stands for it. -/
  init : ∀ i y, (placements [] ps)[i]? = some y →
    Instruction.decode P.code (blockPos ps i) = .ok (.create y.cls 0)
  initCall : ∀ i y, (placements [] ps)[i]? = some y →
    Instruction.decode P.code (blockPos ps i + 6) = .ok (.call .call 2)
  initInline : ∀ y ∈ placements [] ps, P.fieldCount y.cls = 0
  initDispatch : ∀ y ∈ placements [] ps, P.dispatch y.cls .call = some (initialiser y.before)
  /-- What comes back is kept as the object of the package. -/
  keep : ∀ i y, (placements [] ps)[i]? = some y →
    Instruction.decode P.code (blockPos ps i + 12) = .ok (.globalStore (UInt32.ofNat y.global))
  /-- The main method is called on the object of the entry package. -/
  load : Instruction.decode P.code (blockPos ps ps.length) = .ok (.globalLoad (UInt32.ofNat slot))
  loadCall : Instruction.decode P.code (blockPos ps ps.length + 5) = .ok (.call main 0)
  size : blockPos ps ps.length + 11 = P.code.size
  /-- Positions and slots are words. -/
  room : P.code.size < 2 ^ 32
  slots : ∀ y ∈ placements [] ps, (UInt32.ofNat y.global).toNat = y.global ∧
    y.global < P.globalCount.toNat
  entrySlot : (UInt32.ofNat slot).toNat = slot ∧ slot < P.globalCount.toNat

lemma Program.StartUp.block_lt {P : Program} {ps : List (String × Package)} {slot i : Nat}
    {main : MethodId} (hP : P.StartUp ps slot main) (hi : i < ps.length) :
    blockPos ps i + 17 ≤ blockPos ps ps.length ∧ blockPos ps ps.length + 11 < 2 ^ 32 := by
  have hsize := hP.size
  have hroom := hP.room
  refine ⟨?_, by omega⟩
  rw [blockPos, blockPos]
  omega

lemma Program.StartUp.toNat_ofNat {P : Program} {ps : List (String × Package)} {slot pos : Nat}
    {main : MethodId} (hP : P.StartUp ps slot main) (hpos : pos ≤ codeBase ps) :
    (UInt32.ofNat pos).toNat = pos := by
  have hsize := hP.size
  have hroom := hP.room
  rw [blockPos] at hsize
  exact UInt32.toNat_ofNat_of_lt' (by show _ < 2 ^ 32; omega)

lemma Program.fieldCount_ofIndex {P : Program} {i : Nat} {decl : ClassDecl} (hi : i < 2 ^ 31)
    (h : P.classes[i]? = some decl) : P.fieldCount (.ofIndex i) = decl.fieldCount.toNat := by
  have hlength : (ClassId.ofIndex i).arrayLength? = none := by
    rw [ClassId.arrayLength?, ClassId.isArray_ofIndex hi]
    rfl
  simp only [fieldCount, hlength, ClassId.index?_ofIndex hi, h]

lemma size_initInstructions (y : Placement) :
    (Instruction.encodeAll y.initInstructions).length = 17 := rfl

lemma length_encodeAll_init (ys : List Placement) :
    (Instruction.encodeAll (ys.flatMap Placement.initInstructions)).length = 17 * ys.length := by
  induction ys with
  | nil => rfl
  | cons y ys ih =>
      rw [List.flatMap_cons, Instruction.encodeAll_append, List.length_append,
        size_initInstructions, ih, List.length_cons]
      omega

lemma length_placements (before ps : List (String × Package)) :
    (placements before ps).length = ps.length := by
  rw [← List.length_map, map_placements]

lemma stands_block {code : Code} {pos : Nat} {ys : List Placement} {rest : List Instruction}
    (h : Stands code pos
      (Instruction.encodeAll (ys.flatMap Placement.initInstructions ++ rest)))
    {i : Nat} {y : Placement} (hy : ys[i]? = some y) :
    Stands code (pos + 17 * i) (Instruction.encodeAll y.initInstructions) := by
  obtain ⟨hlt, rfl⟩ := List.getElem?_eq_some_iff.mp hy
  rw [← List.take_append_drop i ys, List.drop_eq_getElem_cons hlt, List.flatMap_append,
    List.flatMap_cons, List.append_assoc, Instruction.encodeAll_append, Stands.append_iff,
    length_encodeAll_init, List.length_take_of_le hlt.le, List.append_assoc,
    Instruction.encodeAll_append, Stands.append_iff] at h
  exact h.2.1

namespace Program.LaidOut

variable {P : Program} {ps : List (String × Package)} {entry : String}

/-- The first instructions of a program enter the start code. -/
lemma stands_entry (h : P.LaidOut ps entry) :
    Stands P.code 0 (Instruction.encodeAll entryInstructions) := by
  obtain ⟨main, slot, -, -, hcode⟩ := h.code
  rw [entryCode_eq, List.append_assoc] at hcode
  have hfirst : P.code.toList = [] ++ Instruction.encodeAll entryInstructions ++ _ := hcode
  exact Stands.of_toList hfirst

/-- Behind all packages stands the start code, up to the end. -/
lemma exists_stands_start (h : P.LaidOut ps entry) : ∃ main slot,
    P.methodId? "main" = some main ∧ globalOf? ps entry = some slot ∧
      Stands P.code (codeBase ps) (Instruction.encodeAll
        ((placements [] ps).flatMap Placement.initInstructions ++ mainInstructions slot main)) ∧
      P.code.size = blockPos ps ps.length + 11 := by
  obtain ⟨before, main, slot, hmain, hslot, hcode, hbefore⟩ := h.exists_startCode
  rw [startCode_eq] at hcode
  refine ⟨main, slot, hmain, hslot, ?_, ?_⟩
  · rw [← List.append_nil (before ++ _)] at hcode
    exact hbefore ▸ Stands.of_toList hcode
  · rw [← Array.length_toList, hcode, List.length_append, hbefore, Instruction.encodeAll_append,
      List.length_append, length_encodeAll_init, length_placements, blockPos]
    rfl

end Program.LaidOut

/-- The entry package lies somewhere. -/
lemma exists_of_globalOf? {ps : List (String × Package)} {name : String} {slot : Nat}
    (h : globalOf? ps name = some slot) :
    ∃ y ∈ placements [] ps, y.name = name ∧ y.global = slot := by
  obtain ⟨y, hy, hslot⟩ := Option.map_eq_some_iff.mp h
  have hname := List.find?_some hy
  rw [decide_eq_true_eq] at hname
  exact ⟨y, List.mem_of_find?_eq_some hy, hname, hslot⟩

namespace Linker.Completes

variable {l : Linker} {ps : List (String × Package)} {P : Program}

lemma fieldCount_cls (h : l.Completes ps P) {y : Placement} (hy : y ∈ placements [] ps) :
    P.fieldCount y.cls = 0 := by
  obtain ⟨front, back, hsplit, hbefore⟩ := mem_placements.mp hy
  rw [List.nil_append] at hbefore
  have hroom : classBase y.before + 1 + y.package.classes.size ≤ 2 ^ 31 :=
    (Placement.classBase_le hy).trans (h.classBase_le.trans h.classes_le)
  have hclass := h.getElem?_classBase_add hsplit (Nat.zero_le _)
  rw [← hbefore, Nat.add_zero] at hclass
  exact Program.fieldCount_ofIndex (by omega) hclass

lemma dispatch_cls (h : l.Completes ps P) {y : Placement} (hy : y ∈ placements [] ps) :
    P.dispatch y.cls .call = some (initialiser y.before) := by
  obtain ⟨front, back, hsplit, hbefore⟩ := mem_placements.mp hy
  rw [Placement.cls, hbefore, List.nil_append]
  exact (h.dispatch_initialiser hsplit).mpr ⟨rfl, rfl⟩

lemma fieldCount_programInit (h : l.Completes ps P) : P.fieldCount .programInit = 0 := by
  have hthree : 3 ≤ classBase ps := Nat.le_add_right 3 _
  have hclass : P.classes[1]? = some ⟨"ProgramInit", .user, 0⟩ := by
    rw [h.getElem?_of_lt_classBase (by omega), ← Array.getElem?_toList, h.holds.classes]
    rfl
  exact Program.fieldCount_ofIndex (by decide) hclass

lemma dispatch_programInit (h : l.Completes ps P) :
    P.dispatch .programInit .call = some (starter ps) :=
  (h.dispatch_outside (k := 1) (.inl (by decide)) (by decide)).mpr ⟨rfl, rfl, rfl⟩

end Linker.Completes

/-- **A linked program starts by its start code.** -/
theorem exists_startUp {source : Source} {entry : String} {journal journal' : Journal}
    {P : Program} (h : link source entry journal = .ok P journal')
    (hclasses : P.classes.size ≤ 2 ^ 31) (hmethods : P.methods.size ≤ 2 ^ 32)
    (htable : P.implementations.size ≤ 2 ^ 31) (hcode : P.code.size < 2 ^ 32)
    (hglobals : ∀ ps, source.Closure entry ps → globalBase ps < 2 ^ 32) :
    ∃ ps main slot, source.Closure entry ps ∧ source.LinksInOrder entry journal ps ∧
      P.methodId? "main" = some main ∧ globalOf? ps entry = some slot ∧
        P.StartUp ps slot main := by
  obtain ⟨l, ps, hps, hcomplete, hclosure, horder, hvalid, hlaid⟩ := exists_laidOut h
  obtain ⟨main, slot, hmain, hslot, hstart, hsize⟩ := hlaid.exists_stands_start
  have hcompletes := hps.completes hvalid hcomplete hclasses hmethods htable
  have hslots : ∀ y ∈ placements [] ps, (UInt32.ofNat y.global).toNat = y.global ∧
      y.global < P.globalCount.toNat := by
    intro y hy
    have hroom := hglobals ps hclosure
    have hlt := Placement.lt_globalBase hy
    have hcount : P.globalCount.toNat = globalBase ps := by
      rw [hlaid.globalCount]
      exact UInt32.toNat_ofNat_of_lt' hroom
    rw [hcount]
    exact ⟨UInt32.toNat_ofNat_of_lt' (by show _ < 2 ^ 32; omega), by omega⟩
  obtain ⟨henter, hrest⟩ := Stands.append_iff.mp hlaid.stands_entry
  obtain ⟨henterCall, -⟩ := Stands.append_iff.mp hrest
  have hblock : ∀ i y, (placements [] ps)[i]? = some y →
      Stands P.code (blockPos ps i) (Instruction.encodeAll y.initInstructions) :=
    fun i y hy => stands_block hstart hy
  have hmainBlock : Stands P.code (blockPos ps ps.length)
      (Instruction.encodeAll (mainInstructions slot main)) := by
    rw [Instruction.encodeAll_append, Stands.append_iff, length_encodeAll_init,
      length_placements] at hstart
    exact hstart.2
  obtain ⟨z, hz, -, rfl⟩ := exists_of_globalOf? hslot
  refine ⟨ps, main, z.global, hclosure, horder, hmain, hslot, {
    enter := Instruction.decode_of_stands henter
    enterCall := Instruction.decode_of_stands henterCall
    enterInline := hcompletes.fieldCount_programInit
    enterDispatch := hcompletes.dispatch_programInit
    init := fun i y hy => ?_
    initCall := fun i y hy => ?_
    initInline := fun y hy => hcompletes.fieldCount_cls hy
    initDispatch := fun y hy => hcompletes.dispatch_cls hy
    keep := fun i y hy => ?_
    load := ?_
    loadCall := ?_
    size := hsize.symm
    room := hcode
    slots := hslots
    entrySlot := hslots z hz }⟩
  · exact Instruction.decode_of_stands (Stands.append_iff.mp (hblock i y hy)).1
  · have hcall := (Stands.append_iff.mp (hblock i y hy)).2
    exact Instruction.decode_of_stands (Stands.append_iff.mp hcall).1
  · have hcall := (Stands.append_iff.mp (hblock i y hy)).2
    have hkeep := (Stands.append_iff.mp hcall).2
    exact Instruction.decode_of_stands (Stands.append_iff.mp hkeep).1
  · exact Instruction.decode_of_stands (Stands.append_iff.mp hmainBlock).1
  · have hcall := (Stands.append_iff.mp hmainBlock).2
    exact Instruction.decode_of_stands (Stands.append_iff.mp hcall).1

/-! ### Rounds of the start-up -/

namespace Config

/-- The run executes the instruction at the position next, in the given frame. -/
def At (c : Config) (pos frame : Nat) : Prop :=
  c.call = none ∧ c.machine.thread.pos.toNat = pos ∧ c.machine.thread.frame = frame

instance (c : Config) (pos frame : Nat) : Decidable (c.At pos frame) :=
  inferInstanceAs (Decidable (_ ∧ _ ∧ _))

/-- The run is about to initialise the package of the given number, or to call the main method
behind the last one. -/
def Starting (ps : List (String × Package)) (i : Nat) (c : Config) : Prop :=
  c.At (blockPos ps i) 2

/-- The run enters the initialiser of the package. -/
def Entered (y : Placement) (c : Config) : Prop := c.At (codeBase y.before) 4

/-- The run has come back behind the call of the initialiser of the given number. -/
def Returned (ps : List (String × Package)) (i : Nat) (c : Config) : Prop :=
  c.At (blockPos ps i + 12) 2

instance (ps : List (String × Package)) (i : Nat) (c : Config) : Decidable (c.Starting ps i) :=
  inferInstanceAs (Decidable (c.At _ _))

instance (ps : List (String × Package)) (i : Nat) (c : Config) : Decidable (c.Returned ps i) :=
  inferInstanceAs (Decidable (c.At _ _))

variable {P : Program} (natives : Natives) {ps : List (String × Package)} {slot i size : Nat}
  {main : MethodId} {c : Config} {y : Placement}

lemma At.advance {pos frame : Nat} (h : c.At pos frame) :
    c.advance P natives = Machine.execute P c.machine := by
  rw [Config.advance, h.1]

/-- An instruction that stands in the code does not end the run. -/
lemma At.going {pos frame : Nat} (h : c.At pos frame) (hpos : pos < 2 ^ 32 - 1) :
    c.halted = false := by
  have hne : c.machine.thread.pos ≠ Thread.halt := by
    intro heq
    have hhalt : c.machine.thread.pos.toNat = 4294967295 := by rw [heq]; rfl
    rw [h.2.1] at hhalt
    omega
  rw [halted, Thread.halted, decide_eq_false hne, Bool.and_false]

lemma toNat_passed {m : Machine} {pos : Nat} {i : Instruction} (h : m.thread.pos.toNat = pos)
    (hroom : pos + i.size < 2 ^ 32) : (m.passed i).thread.pos.toNat = pos + i.size := by
  show (m.thread.pos + UInt32.ofNat i.size).toNat = _
  rw [UInt32.toNat_add, UInt32.toNat_ofNat_of_lt' (by show _ < 2 ^ 32; omega), h,
    Nat.mod_eq_of_lt hroom]

lemma lt_of_getElem? (hy : (placements [] ps)[i]? = some y) : i < ps.length :=
  length_placements [] ps ▸ (List.getElem?_eq_some_iff.mp hy).1

/-- A call on a class that implements it by code goes there. -/
lemma advance_standard {method : MethodId} {found : Implementation} (hcall : c.call = some method)
    (hdispatch : P.dispatch c.machine.thread.value.tag method = some found)
    (hkind : found.kind = .standard) : c.advance P natives =
      .ok none { c.machine with thread := { c.machine.thread with pos := found.entry } } := by
  rw [advance, hcall]
  dsimp only
  rw [Machine.dispatchOnce_eq, hdispatch]
  dsimp only
  rw [hkind]

/-- The object that stands for the program is made. -/
lemma advance_enter (hP : P.StartUp ps slot main) (h : c.At 0 2)
    (hroom : 2 ≤ c.machine.thread.registers.size) : ∃ m, c.advance P natives = .ok none m ∧
      At ⟨none, m⟩ 6 2 ∧ m.thread.value.tag = .programInit ∧
      m.thread.registers = c.machine.thread.registers := by
  obtain ⟨-, hpos, hframe⟩ := id h
  have hexecute := Machine.execute_create (hpos ▸ hP.enter) hP.enterInline (hframe.symm ▸ hroom)
  exact ⟨_, (h.advance natives).trans hexecute, ⟨rfl, toNat_passed hpos (by decide), hframe⟩, rfl, rfl⟩

/-- It is called in place. -/
lemma advance_enterCall (hP : P.StartUp ps slot main) (h : c.At 6 2) :
    ∃ m, c.advance P natives = .ok (some .call) m ∧ m.thread.frame = 2 ∧
      m.thread.value = c.machine.thread.value ∧
      m.thread.registers = c.machine.thread.registers := by
  obtain ⟨-, hpos, hframe⟩ := id h
  have hexecute := Machine.execute_of_executes (hpos ▸ hP.enterCall) .callHere
  exact ⟨_, (h.advance natives).trans hexecute, hframe, rfl, rfl⟩

/-- The call leads to the start code. -/
lemma advance_enterDispatch (hP : P.StartUp ps slot main) (hcall : c.call = some .call)
    (htag : c.machine.thread.value.tag = .programInit) (hframe : c.machine.thread.frame = 2) :
    ∃ m, c.advance P natives = .ok none m ∧ Starting ps 0 ⟨none, m⟩ ∧
      m.thread.registers = c.machine.thread.registers := by
  have hdispatch := hP.enterDispatch
  rw [← htag] at hdispatch
  have hpos := hP.toNat_ofNat (Nat.le_refl (codeBase ps))
  exact ⟨_, advance_standard natives hcall hdispatch rfl, ⟨rfl, hpos, hframe⟩, rfl⟩

/-- An object that stands for the package is made. -/
lemma Starting.advance (hP : P.StartUp ps slot main) (hy : (placements [] ps)[i]? = some y)
    (h : c.Starting ps i) (hroom : 2 ≤ c.machine.thread.registers.size) :
    ∃ m, c.advance P natives = .ok none m ∧ At ⟨none, m⟩ (blockPos ps i + 6) 2 ∧
      m.thread.value.tag = y.cls ∧ m.thread.registers = c.machine.thread.registers ∧
      m.image.globals = c.machine.image.globals := by
  obtain ⟨-, hpos, hframe⟩ := id h
  have hlt := hP.block_lt (lt_of_getElem? hy)
  have hexecute := Machine.execute_create (hpos ▸ hP.init i y hy)
    (hP.initInline y (List.mem_of_getElem? hy)) (hframe.symm ▸ hroom)
  refine ⟨_, (At.advance natives h).trans hexecute, ⟨rfl, ?_, hframe⟩, rfl, rfl, rfl⟩
  exact toNat_passed hpos (by show _ + 6 < _; omega)

/-- It is called with a return record of its own. -/
lemma advance_initCall (hP : P.StartUp ps slot main) (hy : (placements [] ps)[i]? = some y)
    (h : c.At (blockPos ps i + 6) 2) (hfits : c.machine.Fits P size) (hsize : 6 ≤ size) :
    ∃ m, c.advance P natives = .ok (some .call) m ∧ m.thread.frame = 4 ∧
      m.thread.value = c.machine.thread.value ∧
      m.thread.registers = (c.machine.thread.registers.setIfInBounds 4 (P.nat 2)).setIfInBounds 5
        ⟨P.intClass, UInt32.ofNat (blockPos ps i + 12)⟩ ∧
      m.image.globals = c.machine.image.globals := by
  obtain ⟨-, hpos, hframe⟩ := id h
  have hlt := hP.block_lt (lt_of_getElem? hy)
  have hexecute := Machine.execute_call (hpos ▸ hP.initCall i y hy) hfits.frameEnd
    (by rw [hframe, hfits.registers]; exact hsize)
  have hnext : c.machine.thread.pos + 6 = UInt32.ofNat (blockPos ps i + 12) := by
    have hword : c.machine.thread.pos = UInt32.ofNat (blockPos ps i + 6) := by
      rw [← hpos, UInt32.ofNat_toNat]
    rw [hword]
    exact (UInt32.ofNat_add (blockPos ps i + 6) 6).symm
  refine ⟨_, (h.advance natives).trans hexecute, by rw [hframe], rfl, ?_, rfl⟩
  show (c.machine.thread.registers.setIfInBounds (c.machine.thread.frame + 2) _).setIfInBounds
    (c.machine.thread.frame + 3) _ = _
  rw [hframe, hnext]
  rfl

/-- The call leads to the code of the package. -/
lemma advance_initDispatch (hP : P.StartUp ps slot main) (hy : y ∈ placements [] ps)
    (hcall : c.call = some .call) (htag : c.machine.thread.value.tag = y.cls)
    (hframe : c.machine.thread.frame = 4) :
    ∃ m, c.advance P natives = .ok none m ∧ Entered y ⟨none, m⟩ ∧
      m.thread.registers = c.machine.thread.registers ∧
      m.image.globals = c.machine.image.globals := by
  have hdispatch := hP.initDispatch y hy
  rw [← htag] at hdispatch
  have hpos : (UInt32.ofNat (codeBase y.before)).toNat = codeBase y.before :=
    hP.toNat_ofNat (by have hle := Placement.codeBase_le hy; omega)
  exact ⟨_, advance_standard natives hcall hdispatch rfl, ⟨rfl, hpos, hframe⟩, rfl, rfl⟩

/-- What has come back is kept as the object of the package, and the next package is started. -/
lemma Returned.advance (hP : P.StartUp ps slot main) (hy : (placements [] ps)[i]? = some y)
    (h : c.Returned ps i) (hfits : c.machine.Fits P size) :
    ∃ m, c.advance P natives = .ok none m ∧ Starting ps (i + 1) ⟨none, m⟩ ∧
      m.thread.registers = c.machine.thread.registers ∧
      m.image.globals[y.global]? = some c.machine.thread.value ∧
      ∀ g, g ≠ y.global → m.image.globals[g]? = c.machine.image.globals[g]? := by
  obtain ⟨-, hpos, hframe⟩ := id h
  have hlt := hP.block_lt (lt_of_getElem? hy)
  obtain ⟨hword, hslot⟩ := hP.slots y (List.mem_of_getElem? hy)
  have hexecute := Machine.execute_of_executes (hpos ▸ hP.keep i y hy)
    (.globalStore (by rw [hword]; exact hfits.globals.symm ▸ hslot))
  have hblock : blockPos ps (i + 1) = blockPos ps i + 12 + 5 := by
    rw [blockPos, blockPos]
    omega
  rw [hword] at hexecute
  refine ⟨_, (At.advance natives h).trans hexecute, ⟨rfl, ?_, hframe⟩, rfl, ?_, fun g hg => ?_⟩
  · rw [hblock]
    exact toNat_passed hpos (by show _ + 5 < _; omega)
  · exact Array.getElem?_setIfInBounds_self_of_lt (hfits.globals ▸ hslot)
  · exact Array.getElem?_setIfInBounds_ne hg.symm

/-- Behind the last package, the object of the entry package is taken. -/
lemma Starting.advance_load (hP : P.StartUp ps slot main) (h : c.Starting ps ps.length)
    (hfits : c.machine.Fits P size) :
    ∃ m, c.advance P natives = .ok none m ∧ At ⟨none, m⟩ (blockPos ps ps.length + 5) 2 ∧
      c.machine.image.globals[slot]? = some m.thread.value ∧
      m.thread.registers = c.machine.thread.registers := by
  obtain ⟨-, hpos, hframe⟩ := id h
  obtain ⟨hword, hslot⟩ := hP.entrySlot
  have hroom := hP.room
  have hsize := hP.size
  obtain ⟨v, hv⟩ : ∃ v, c.machine.image.globals[slot]? = some v :=
    ⟨_, Array.getElem?_eq_getElem (by rw [hfits.globals]; exact hslot)⟩
  have hexecute := Machine.execute_of_executes (hpos ▸ hP.load)
    (.globalLoad (by rw [hword]; exact hv))
  refine ⟨_, (At.advance natives h).trans hexecute, ⟨rfl, ?_, hframe⟩, hv, rfl⟩
  exact toNat_passed hpos (by show _ + 5 < _; omega)

/-- The main method is called on it, in place. -/
lemma advance_loadCall (hP : P.StartUp ps slot main) (h : c.At (blockPos ps ps.length + 5) 2) :
    ∃ m, c.advance P natives = .ok (some main) m ∧ m.thread.frame = 2 ∧
      m.thread.value = c.machine.thread.value ∧
      m.thread.registers = c.machine.thread.registers := by
  obtain ⟨-, hpos, hframe⟩ := id h
  have hexecute := Machine.execute_of_executes (hpos ▸ hP.loadCall) .callHere
  exact ⟨_, (h.advance natives).trans hexecute, hframe, rfl, rfl⟩

end Config

end EffectMachine
