/-
How a program starts.

A run comes to the start code, which initialises the packages one after the other and then calls
the main method. Initialisers are code of the packages and may do anything, so it is said apart
what holds of all runs, and what holds if initialisers return where they have been called from.

* `EveryRound`, `ReturnsHome`, `LeavesRecord`: what may be asked of initialisers. They return
  through their own return records, and leave the outermost one alone;
* `Initialised`: a package has been initialised, and its object kept;
* `Phase`, `Phase.advance`: **where the start-up stands, and how a round goes on**;
* `start_up_initialises_in_order`: **every package is initialised after those that it imports, and
  then the main method is called**.
-/
import EffectMachine.Proofs.RunChecks
import EffectMachine.Proofs.StartCode

namespace EffectMachine

/-! ### What may be asked of initialisers -/

/-- Every round of a run is as given. The configurations of the run are listed with the latest
first. -/
def EveryRound (R : List Config → Config → Config → Prop) : List Config → Prop
  | c' :: c :: past => R past c c' ∧ EveryRound R (c :: past)
  | _ => True

/-- The block of the start code at which the run is, if it is at the beginning of one. -/
def Config.startOf? (ps : List (String × Package)) (c : Config) : Option Nat :=
  (List.range (ps.length + 1)).find? fun i => c.Starting ps i

/-- The blocks of the start code that the run has started, the latest first. -/
def starts (ps : List (String × Package)) (run : List Config) : List Nat :=
  run.filterMap (Config.startOf? ps)

/-- Initialisers return through their own return records: where the run leaves the frames above
that of the start code, it comes back behind the call of the block that it has started last. -/
def ReturnsHome (ps : List (String × Package)) : List Config → Prop :=
  EveryRound fun past c c' => 4 ≤ c.machine.thread.frame → c'.machine.thread.frame < 4 →
    (starts ps (c :: past)).head?.any fun i => c'.Returned ps i

/-- The positions of the instructions that start a program. -/
def startPositions (ps : List (String × Package)) : List Nat :=
  [0, 6] ++ (List.range ps.length).flatMap (fun i =>
    [blockPos ps i, blockPos ps i + 6, blockPos ps i + 12]) ++
    [blockPos ps ps.length, blockPos ps ps.length + 5]

/-- The run executes one of them next, in the outermost frame. -/
def Config.StartsUp (ps : List (String × Package)) (c : Config) : Prop :=
  ∃ pos ∈ startPositions ps, c.At pos 2

/-- The registers of the outermost return record are the same. -/
def Machine.SameRecord (m m' : Machine) : Prop :=
  m'.thread.registers[2]? = m.thread.registers[2]? ∧
    m'.thread.registers[3]? = m.thread.registers[3]?

/-- All rounds but those of the start-up itself leave the outermost return record alone. -/
def LeavesRecord (ps : List (String × Package)) : List Config → Prop :=
  EveryRound fun _ c c' => c.StartsUp ps ∨ c.machine.SameRecord c'.machine

section Decidable

instance EveryRound.decidable (R : List Config → Config → Config → Prop)
    [∀ past c c', Decidable (R past c c')] : ∀ run, Decidable (EveryRound R run)
  | [] => .isTrue trivial
  | [_] => .isTrue trivial
  | c' :: c :: past =>
    have := EveryRound.decidable R (c :: past)
    inferInstanceAs (Decidable (R past c c' ∧ EveryRound R (c :: past)))

instance (ps : List (String × Package)) (run : List Config) : Decidable (ReturnsHome ps run) :=
  inferInstanceAs (Decidable (EveryRound _ run))

instance (ps : List (String × Package)) (c : Config) : Decidable (c.StartsUp ps) :=
  inferInstanceAs (Decidable (∃ pos ∈ startPositions ps, c.At pos 2))

instance (m m' : Machine) : Decidable (m.SameRecord m') :=
  inferInstanceAs (Decidable (_ ∧ _))

instance (ps : List (String × Package)) (run : List Config) : Decidable (LeavesRecord ps run) :=
  inferInstanceAs (Decidable (EveryRound _ run))

end Decidable

/-! ### Where the start-up stands -/

/-- The initialiser of the package has been entered, and the run has stayed in its frames. -/
def Underway (y : Placement) (run : List Config) : Prop :=
  ∃ middle e back, run = middle ++ e :: back ∧ e.Entered y ∧
    ∀ x ∈ middle, 4 ≤ x.machine.thread.frame

/-- The package has been initialised: the run has come through its initialiser and back, and has
kept as its object what came back. -/
def Initialised (ps : List (String × Package)) (i : Nat) (y : Placement) (run : List Config) :
    Prop :=
  ∃ front d' d back, run = front ++ d' :: d :: back ∧ Underway y back ∧ d.Returned ps i ∧
    d'.machine.image.globals[y.global]? = some d.machine.thread.value

/-- So have all packages before the given number. -/
def InitialisedBelow (ps : List (String × Package)) (i : Nat) (run : List Config) : Prop :=
  ∀ j < i, ∀ z, (placements [] ps)[j]? = some z → Initialised ps j z run

lemma Initialised.cons {ps : List (String × Package)} {i : Nat} {y : Placement}
    {run : List Config} (h : Initialised ps i y run) (c : Config) :
    Initialised ps i y (c :: run) := by
  obtain ⟨front, d', d, back, rfl, hrest⟩ := h
  exact ⟨c :: front, d', d, back, rfl, hrest⟩

lemma InitialisedBelow.cons {ps : List (String × Package)} {i : Nat} {run : List Config}
    (h : InitialisedBelow ps i run) (c : Config) : InitialisedBelow ps i (c :: run) :=
  fun j hj z hz => (h j hj z hz).cons c

lemma InitialisedBelow.mono {ps : List (String × Package)} {i k : Nat} {run : List Config}
    (h : InitialisedBelow ps k run) (hle : i ≤ k) : InitialisedBelow ps i run :=
  fun j hj z hz => h j (Nat.lt_of_lt_of_le hj hle) z hz

/-- Where a run stands in the block of a package. -/
inductive InBlock (ps : List (String × Package)) (i : Nat) (y : Placement) :
    List Config → Config → Prop
  | starting {past : List Config} {c : Config} : c.Starting ps i → InBlock ps i y past c
  | calling {past : List Config} {c : Config} : c.At (blockPos ps i + 6) 2 →
      c.machine.thread.value.tag = y.cls → InBlock ps i y past c
  | dispatching {past : List Config} {c : Config} : c.call = some .call →
      c.machine.thread.frame = 4 → c.machine.thread.value.tag = y.cls → InBlock ps i y past c
  | running {past : List Config} {c : Config} : 4 ≤ c.machine.thread.frame →
      Underway y (c :: past) → InBlock ps i y past c
  | returned {past : List Config} {c : Config} : c.Returned ps i → Underway y past →
      InBlock ps i y past c

/-- Where a run stands on the way to the start code. -/
inductive Entering : Config → Prop
  | enter {c : Config} : c.At 0 2 → Entering c
  | calling {c : Config} : c.At 6 2 → c.machine.thread.value.tag = .programInit → Entering c
  | dispatching {c : Config} : c.call = some .call → c.machine.thread.frame = 2 →
      c.machine.thread.value.tag = .programInit → Entering c

/-- Where a run stands that comes through the start code. Blocks have been started one after the
other, and the packages of those that have come to their end have been initialised. -/
inductive Phase (ps : List (String × Package)) : List Config → Config → Prop
  | entering {past : List Config} {c : Config} : Entering c → starts ps (c :: past) = [] →
      Phase ps past c
  | block {past : List Config} {c : Config} (i : Nat) (y : Placement) :
      (placements [] ps)[i]? = some y → InBlock ps i y past c →
      InitialisedBelow ps i (c :: past) →
      starts ps (c :: past) = (List.range (i + 1)).reverse → Phase ps past c
  | main {past : List Config} {c : Config} : c.Starting ps ps.length →
      InitialisedBelow ps ps.length (c :: past) →
      starts ps (c :: past) = (List.range (ps.length + 1)).reverse → Phase ps past c
  | beyond {past : List Config} {c : Config} : (∃ d ∈ past, d.Starting ps ps.length) →
      InitialisedBelow ps ps.length (c :: past) → Phase ps past c

section

variable {P : Program} {natives : Natives} {ps : List (String × Package)} {slot i size : Nat}
  {main : MethodId} {c : Config} {y : Placement} {past : List Config}

/-- Inside a block no block begins. -/
lemma blockPos_ne_add (ps : List (String × Package)) {k : Nat} (hk : k % 17 ≠ 0) (i j : Nat) :
    blockPos ps j ≠ blockPos ps i + k := by
  rw [blockPos, blockPos]
  omega

/-- Nor does one in the entry code. -/
lemma blockPos_ne_of_lt (ps : List (String × Package)) {pos : Nat} (hpos : pos < 12) (j : Nat) :
    blockPos ps j ≠ pos := by
  rw [blockPos, codeBase]
  omega

namespace Config

lemma Starting.eq {j : Nat} (h : c.Starting ps i) (h' : c.Starting ps j) : i = j := by
  have heq : blockPos ps i = blockPos ps j := h.2.1.symm.trans h'.2.1
  rw [blockPos, blockPos] at heq
  omega

lemma Starting.startOf?_eq (h : c.Starting ps i) (hi : i ≤ ps.length) :
    c.startOf? ps = some i := by
  rw [startOf?, List.find?_range_eq_some]
  refine ⟨decide_eq_true h, List.mem_range.mpr (Nat.lt_succ_of_le hi), fun j hj => ?_⟩
  rw [Bool.not_eq_true', decide_eq_false_iff_not]
  exact fun hstarting => hj.ne (hstarting.eq h)

lemma startOf?_eq_none (h : ∀ i, ¬ c.Starting ps i) : c.startOf? ps = none :=
  List.find?_eq_none.mpr fun i _ => by simpa using h i

/-- Instructions of the start code that begin no block. -/
lemma At.startOf?_eq_none {pos : Nat} (h : c.At pos 2) (hpos : ∀ j, blockPos ps j ≠ pos) :
    c.startOf? ps = none :=
  Config.startOf?_eq_none fun j hj => hpos j (hj.2.1.symm.trans h.2.1)

lemma startOf?_eq_none_of_frame (h : c.machine.thread.frame ≠ 2) : c.startOf? ps = none :=
  startOf?_eq_none fun _ hj => h hj.2.2

lemma startOf?_eq_none_of_call {method : MethodId} (h : c.call = some method) :
    c.startOf? ps = none :=
  startOf?_eq_none fun _ hj => by cases hj.1.symm.trans h

end Config

lemma starts_cons_of_none (h : c.startOf? ps = none) : starts ps (c :: past) = starts ps past :=
  List.filterMap_cons_none h

/-- A run that begins the next block has begun all blocks up to it. -/
lemma Phase.of_starting_next (hi : i ≤ ps.length) (h : c.Starting ps i)
    (hdone : InitialisedBelow ps i (c :: past))
    (hstarts : starts ps past = (List.range i).reverse) : Phase ps past c := by
  have hnext : starts ps (c :: past) = (List.range (i + 1)).reverse := by
    rw [starts, List.filterMap_cons_some (h.startOf?_eq hi), List.range_succ, List.reverse_append]
    exact congrArg (i :: ·) hstarts
  rcases Nat.lt_or_eq_of_le hi with hlt | rfl
  · have hlt' : i < (placements [] ps).length := by rwa [length_placements]
    exact .block i _ (List.getElem?_eq_getElem hlt') (.starting h) hdone hnext
  · exact .main h hdone hnext

/-- The run is in the block of a package, and goes on to another configuration of the block. -/
lemma Phase.of_block {call : Option MethodId} {m : Machine}
    (hy : (placements [] ps)[i]? = some y) (hdone : InitialisedBelow ps i (c :: past))
    (hstarts : starts ps (c :: past) = (List.range (i + 1)).reverse)
    (hnone : Config.startOf? ps ⟨call, m⟩ = none) (h : InBlock ps i y (c :: past) ⟨call, m⟩) :
    Phase ps (c :: past) ⟨call, m⟩ :=
  .block i y hy h (hdone.cons _) ((starts_cons_of_none hnone).trans hstarts)

/-- On the way to the start code. -/
lemma Entering.advance (hP : P.StartUp ps slot main) (hroom : 2 ≤ c.machine.thread.registers.size)
    (h : Entering c) (hstarts : starts ps (c :: past) = []) {call : Option MethodId} {m : Machine}
    (hadvance : c.advance P natives = .ok call m) : Phase ps (c :: past) ⟨call, m⟩ := by
  cases h with
  | enter h =>
      obtain ⟨m', hround, hat, htag, -⟩ := Config.advance_enter natives hP h hroom
      cases hadvance.symm.trans hround
      have hnone : Config.startOf? ps ⟨none, m⟩ = none :=
        hat.startOf?_eq_none (blockPos_ne_of_lt ps (by decide))
      exact .entering (.calling hat htag) ((starts_cons_of_none hnone).trans hstarts)
  | calling h htag =>
      obtain ⟨m', hround, hframe, hvalue, -⟩ :=
        Config.advance_enterCall natives hP h
      cases hadvance.symm.trans hround
      have hnone : Config.startOf? ps ⟨some .call, m⟩ = none := Config.startOf?_eq_none_of_call rfl
      refine .entering (.dispatching rfl hframe ?_) ((starts_cons_of_none hnone).trans hstarts)
      exact (congrArg Value.tag hvalue).trans htag
  | dispatching hcall hframe htag =>
      obtain ⟨m', hround, hstarting, -⟩ :=
        Config.advance_enterDispatch natives hP hcall htag hframe
      cases hadvance.symm.trans hround
      exact .of_starting_next (Nat.zero_le _) hstarting (fun j hj => by cases hj) hstarts

/-- In the block of a package. Where the initialiser is left, it is left for the place behind its
call. -/
lemma InBlock.advance (hP : P.StartUp ps slot main) (hfits : c.machine.Fits P size)
    (hsize : 6 ≤ size) (hy : (placements [] ps)[i]? = some y) (h : InBlock ps i y past c)
    (hdone : InitialisedBelow ps i (c :: past))
    (hstarts : starts ps (c :: past) = (List.range (i + 1)).reverse) {call : Option MethodId}
    {m : Machine} (hadvance : c.advance P natives = .ok call m)
    (hhome : 4 ≤ c.machine.thread.frame → m.thread.frame < 4 →
      Config.Returned ps i ⟨call, m⟩) : Phase ps (c :: past) ⟨call, m⟩ := by
  have hroom : 2 ≤ c.machine.thread.registers.size := by
    rw [hfits.registers]
    omega
  cases h with
  | starting h =>
      obtain ⟨m', hround, hat, htag, -⟩ := Config.Starting.advance natives hP hy h hroom
      cases hadvance.symm.trans hround
      exact .of_block hy hdone hstarts
        (hat.startOf?_eq_none (blockPos_ne_add ps (by decide) i)) (.calling hat htag)
  | calling h htag =>
      obtain ⟨m', hround, hframe, hvalue, -⟩ :=
        Config.advance_initCall natives hP hy h hfits hsize
      cases hadvance.symm.trans hround
      refine .of_block hy hdone hstarts (Config.startOf?_eq_none_of_call rfl)
        (.dispatching rfl hframe ?_)
      exact (congrArg Value.tag hvalue).trans htag
  | dispatching hcall hframe htag =>
      obtain ⟨m', hround, hentered, -⟩ := Config.advance_initDispatch natives hP
        (List.mem_of_getElem? hy) hcall htag hframe
      cases hadvance.symm.trans hround
      have hframe' : m.thread.frame = 4 := hentered.2.2
      refine .of_block hy hdone hstarts (Config.startOf?_eq_none_of_frame ?_) (.running ?_ ?_)
      · rw [hframe']
        decide
      · exact hframe'.ge
      · exact ⟨[], _, _, rfl, hentered, fun x hx => by cases hx⟩
  | running hframe hunderway =>
      by_cases hleft : m.thread.frame < 4
      · have hreturned := hhome hframe hleft
        exact .of_block hy hdone hstarts
          (hreturned.startOf?_eq_none (blockPos_ne_add ps (by decide) i))
          (.returned hreturned hunderway)
      · obtain ⟨middle, e, back, heq, hentered, hmiddle⟩ := hunderway
        have hstays : 4 ≤ m.thread.frame := Nat.le_of_not_lt hleft
        refine .of_block hy hdone hstarts (Config.startOf?_eq_none_of_frame ?_) (.running hstays ?_)
        · show m.thread.frame ≠ 2
          omega
        · refine ⟨⟨call, m⟩ :: middle, e, back, by rw [heq]; rfl, hentered, fun x hx => ?_⟩
          rcases List.mem_cons.mp hx with rfl | hx
          · exact hstays
          · exact hmiddle x hx
  | returned h hunderway =>
      obtain ⟨m', hround, hstarting, -, hkept, -⟩ := Config.Returned.advance natives hP hy h hfits
      cases hadvance.symm.trans hround
      have hinitialised : Initialised ps i y (⟨none, m⟩ :: c :: past) :=
        ⟨[], _, _, _, rfl, hunderway, h, hkept⟩
      refine .of_starting_next (Config.lt_of_getElem? hy) hstarting (fun j hj z hz => ?_) hstarts
      rcases Nat.lt_or_eq_of_le (Nat.le_of_lt_succ hj) with hlt | rfl
      · exact (hdone j hlt z hz).cons _
      · cases Option.some.inj (hz.symm.trans hy)
        exact hinitialised

/-- **A round goes on with the start-up**, if initialisers return through their own records. -/
lemma Phase.advance (hP : P.StartUp ps slot main) (hfits : c.machine.Fits P size)
    (hsize : 6 ≤ size) (h : Phase ps past c) {call : Option MethodId} {m : Machine}
    (hadvance : c.advance P natives = .ok call m)
    (hhome : 4 ≤ c.machine.thread.frame → m.thread.frame < 4 →
      (starts ps (c :: past)).head?.any fun i => Config.Returned ps i ⟨call, m⟩) :
    Phase ps (c :: past) ⟨call, m⟩ := by
  cases h with
  | entering h hstarts =>
      refine h.advance hP ?_ hstarts hadvance
      rw [hfits.registers]
      omega
  | block i y hy h hdone hstarts =>
      refine h.advance hP hfits hsize hy hdone hstarts hadvance fun hframe hleft => ?_
      have hreturned := hhome hframe hleft
      rw [hstarts, List.range_succ, List.reverse_append] at hreturned
      exact of_decide_eq_true hreturned
  | main h hdone _ => exact .beyond ⟨c, List.mem_cons_self, h⟩ (hdone.cons _)
  | beyond h hdone =>
      obtain ⟨d, hd, hstarting⟩ := h
      exact .beyond ⟨d, List.mem_cons_of_mem _ hd, hstarting⟩ (hdone.cons _)

/-- **A run in which initialisers return through their own records comes through the start code.** -/
lemma Phase.of_trail {m₀ : Machine} (hP : P.StartUp ps slot main) (hsize : 6 ≤ size)
    (hfits : ∀ {past c}, Trail P natives m₀ past c → c.machine.Fits P size)
    (hstart : Config.At ⟨none, m₀⟩ 0 2) (ht : Trail P natives m₀ past c)
    (hhome : ReturnsHome ps (c :: past)) : Phase ps past c := by
  induction ht with
  | start =>
      have hnone : Config.startOf? ps ⟨none, m₀⟩ = none :=
        hstart.startOf?_eq_none (blockPos_ne_of_lt ps (by decide))
      exact .entering (.enter hstart) (starts_cons_of_none hnone)
  | round ht hadvance ih => exact (ih hhome.2).advance hP (hfits ht) hsize hadvance hhome.1

/-- A run that begins a block has initialised the packages before it, and has begun each of their
blocks once unless the main method has been called already. -/
lemma Phase.of_starting (h : Phase ps past c) (hi : i ≤ ps.length) (hc : c.Starting ps i) :
    InitialisedBelow ps i (c :: past) ∧
      ((∀ d ∈ past, ¬ d.Starting ps ps.length) →
        starts ps (c :: past) = (List.range (i + 1)).reverse) := by
  have hsome := hc.startOf?_eq hi
  have hapart : ∀ {pos}, c.At pos 2 → ¬ ∀ j, blockPos ps j ≠ pos := fun h hpos => by
    rw [h.startOf?_eq_none hpos] at hsome
    cases hsome
  cases h with
  | entering h _ =>
      cases h with
      | enter h => exact absurd (blockPos_ne_of_lt ps (by decide)) (hapart h)
      | calling h _ => exact absurd (blockPos_ne_of_lt ps (by decide)) (hapart h)
      | dispatching hcall _ _ => cases hc.1.symm.trans hcall
  | block j y hy h hdone hstarts =>
      cases h with
      | starting h =>
          cases h.eq hc
          exact ⟨hdone, fun _ => hstarts⟩
      | calling h _ => exact absurd (blockPos_ne_add ps (by decide) j) (hapart h)
      | dispatching hcall _ _ => cases hc.1.symm.trans hcall
      | running hframe _ =>
          rw [hc.2.2] at hframe
          exact absurd hframe (by decide)
      | returned h _ => exact absurd (blockPos_ne_add ps (by decide) j) (hapart h)
  | main h hdone hstarts =>
      cases h.eq hc
      exact ⟨hdone, fun _ => hstarts⟩
  | beyond h hdone =>
      obtain ⟨d, hd, hstarting⟩ := h
      exact ⟨hdone.mono hi, fun hnone => absurd hstarting (hnone d hd)⟩

end

/-! ### The outermost return record -/

section

variable {P : Program} {natives : Natives} {ps : List (String × Package)} {slot size : Nat}
  {main : MethodId} {c : Config} {past : List Config} {m₀ m : Machine}

lemma Machine.SameRecord.of_eq {m m' : Machine}
    (h : m'.thread.registers = m.thread.registers) : m.SameRecord m' := by
  rw [SameRecord, h]
  exact ⟨rfl, rfl⟩

/-- The start-up leaves the outermost return record alone. -/
lemma Config.StartsUp.sameRecord (hP : P.StartUp ps slot main) (hfits : c.machine.Fits P size)
    (hsize : 6 ≤ size) (h : c.StartsUp ps) {call : Option MethodId}
    (hadvance : c.advance P natives = .ok call m) : c.machine.SameRecord m := by
  obtain ⟨pos, hpos, hat⟩ := h
  have hroom : 2 ≤ c.machine.thread.registers.size := by
    rw [hfits.registers]
    omega
  have hblock : ∀ i < ps.length, ∃ y, (placements [] ps)[i]? = some y := fun i hi =>
    ⟨_, List.getElem?_eq_getElem (by rwa [length_placements])⟩
  simp only [startPositions, List.mem_append, List.mem_cons, List.not_mem_nil, or_false,
    List.mem_flatMap, List.mem_range] at hpos
  rcases hpos with ((rfl | rfl) | ⟨i, hi, rfl | rfl | rfl⟩) | rfl | rfl
  · obtain ⟨_, hround, -, -, hregisters⟩ := advance_enter natives hP hat hroom
    cases hadvance.symm.trans hround
    exact .of_eq hregisters
  · obtain ⟨_, hround, -, -, hregisters⟩ := advance_enterCall natives hP hat
    cases hadvance.symm.trans hround
    exact .of_eq hregisters
  · obtain ⟨y, hy⟩ := hblock i hi
    obtain ⟨_, hround, -, -, hregisters, -⟩ := Starting.advance natives hP hy hat hroom
    cases hadvance.symm.trans hround
    exact .of_eq hregisters
  · obtain ⟨y, hy⟩ := hblock i hi
    obtain ⟨_, hround, -, -, hregisters, -⟩ := advance_initCall natives hP hy hat hfits hsize
    cases hadvance.symm.trans hround
    rw [Machine.SameRecord, hregisters]
    simp only [Array.getElem?_setIfInBounds]
    exact ⟨rfl, rfl⟩
  · obtain ⟨y, hy⟩ := hblock i hi
    obtain ⟨_, hround, -, hregisters, -⟩ := Returned.advance natives hP hy hat hfits
    cases hadvance.symm.trans hround
    exact .of_eq hregisters
  · obtain ⟨_, hround, -, -, hregisters⟩ := Starting.advance_load natives hP hat hfits
    cases hadvance.symm.trans hround
    exact .of_eq hregisters
  · obtain ⟨_, hround, -, -, hregisters⟩ := advance_loadCall natives hP hat
    cases hadvance.symm.trans hround
    exact .of_eq hregisters

/-- **The outermost return record stays**, if no round but those of the start-up writes it. -/
lemma Trail.sameRecord (hP : P.StartUp ps slot main) (hsize : 6 ≤ size)
    (hfits : ∀ {past c}, Trail P natives m₀ past c → c.machine.Fits P size)
    (ht : Trail P natives m₀ past c) (hleaves : LeavesRecord ps (c :: past)) :
    m₀.SameRecord c.machine := by
  induction ht with
  | start => exact .of_eq rfl
  | round ht hadvance ih =>
      have hbefore := ih hleaves.2
      have hround := hleaves.1.elim (fun h => h.sameRecord hP (hfits ht) hsize hadvance) id
      exact ⟨hround.1.trans hbefore.1, hround.2.trans hbefore.2⟩

end

/-! ### Runs from the start -/

/-- How a program whose packages have been linked in the given order starts: the object of the
entry package is kept in the given slot, and the main method has the given number. -/
structure Initialises (P : Program) (natives : Natives) (m₀ : Machine)
    (ps : List (String × Package)) (slot : Nat) (main : MethodId) : Prop where
  /-- The run comes to the start code. -/
  reaches : ∃ past c, Course P natives m₀ past c ∧ c.Starting ps 0
  /-- From the block of a package it enters the initialiser, with a return record that leads back
  behind the call. Nothing else is written. -/
  enters : ∀ past c i y, Course P natives m₀ past c → (placements [] ps)[i]? = some y →
    c.Starting ps i → ∃ c₁ c₂ c₃, Course P natives m₀ (c₂ :: c₁ :: c :: past) c₃ ∧ c₃.Entered y ∧
      c₃.machine.thread.registers[4]? = some (P.nat 2) ∧
      c₃.machine.thread.registers[5]? =
        some ⟨P.intClass, UInt32.ofNat (blockPos ps i + 12)⟩ ∧
      (∀ k, k ≠ 4 → k ≠ 5 →
        c₃.machine.thread.registers[k]? = c.machine.thread.registers[k]?) ∧
      c₃.machine.image.globals = c.machine.image.globals
  /-- Where it comes back, it keeps what has come back as the object of the package, and goes on to
  the next block. -/
  keeps : ∀ past c i y, Course P natives m₀ past c → (placements [] ps)[i]? = some y →
    c.Returned ps i → ∃ c', Course P natives m₀ (c :: past) c' ∧ c'.Starting ps (i + 1) ∧
      c'.machine.image.globals[y.global]? = some c.machine.thread.value ∧
      (∀ g, g ≠ y.global →
        c'.machine.image.globals[g]? = c.machine.image.globals[g]?) ∧
      c'.machine.thread.registers = c.machine.thread.registers
  /-- Behind the last block it dispatches the main method on the object of the entry package, in
  the outermost frame. The return record there is the one that ends the run, if no initialiser has
  written it. -/
  calls : ∀ past c, Course P natives m₀ past c → c.Starting ps ps.length →
    ∃ c₁ c₂, Course P natives m₀ (c₁ :: c :: past) c₂ ∧ c₂.call = some main ∧
      c₂.machine.thread.frame = 2 ∧
      c.machine.image.globals[slot]? = some c₂.machine.thread.value ∧
      (LeavesRecord ps (c :: past) → c₂.machine.thread.registers[2]? = some (P.nat 0) ∧
        c₂.machine.thread.registers[3]? = some ⟨P.intClass, Thread.halt⟩)
  /-- If initialisers return through their own records, a package is started after those that it
  imports have been initialised, and up to the call of the main method each is started once. -/
  ordered : ∀ past c i, Course P natives m₀ past c → i ≤ ps.length → c.Starting ps i →
    ReturnsHome ps (c :: past) → InitialisedBelow ps i (c :: past) ∧
      (∀ y, (placements [] ps)[i]? = some y → ∀ name ∈ y.package.imported,
        ∃ j z, j < i ∧ (placements [] ps)[j]? = some z ∧ z.name = name ∧
          Initialised ps j z (c :: past)) ∧
      ((∀ d ∈ past, ¬ d.Starting ps ps.length) →
        starts ps (c :: past) = (List.range (i + 1)).reverse)

/-- The package of a number, with those before it. -/
lemma getElem?_placements (before ps : List (String × Package)) (i : Nat) :
    (placements before ps)[i]? =
      (ps[i]?).map fun x => ⟨before ++ ps.take i, x.1, x.2⟩ := by
  induction ps generalizing before i with
  | nil => rfl
  | cons x ps ih =>
      cases i with
      | zero => simp [placements]
      | succ i => simp [placements, ih]

/-- What a package imports lies before it. -/
lemma exists_placement_of_imported {source : Source} {ps : List (String × Package)}
    (h : source.Ordered ps) {i : Nat} {y : Placement} (hy : (placements [] ps)[i]? = some y)
    {name : String} (hname : name ∈ y.package.imported) :
    ∃ j z, j < i ∧ (placements [] ps)[j]? = some z ∧ z.name = name := by
  rw [getElem?_placements, Option.map_eq_some_iff] at hy
  obtain ⟨x, hx, rfl⟩ := hy
  obtain ⟨hlt, rfl⟩ := List.getElem?_eq_some_iff.mp hx
  have hsplit : ps = ps.take i ++ ps[i] :: ps.drop (i + 1) := by
    rw [← List.drop_eq_getElem_cons hlt, List.take_append_drop]
  obtain ⟨⟨name, p⟩, hmem, rfl⟩ := List.mem_map.mp (h.imports _ _ _ hsplit name hname)
  obtain ⟨j, hj⟩ := List.getElem?_of_mem hmem
  rw [List.getElem?_take] at hj
  split at hj
  · rename_i hji
    refine ⟨j, ⟨[] ++ ps.take j, name, p⟩, hji, ?_, rfl⟩
    rw [getElem?_placements, hj, Option.map_some]
  · cases hj

/-- A run takes a round from an instruction of the code. -/
lemma Course.round_at {P : Program} {natives : Natives} {m₀ m : Machine} {past : List Config}
    {c : Config} {pos frame : Nat} {call : Option MethodId} (h : Course P natives m₀ past c)
    (hat : c.At pos frame) (hpos : pos < 2 ^ 32 - 1)
    (hadvance : c.advance P natives = .ok call m) : Course P natives m₀ (c :: past) ⟨call, m⟩ :=
  h.round (hat.going hpos) hadvance

lemma Course.round_call {P : Program} {natives : Natives} {m₀ m : Machine} {past : List Config}
    {c : Config} {method : MethodId} {call : Option MethodId} (h : Course P natives m₀ past c)
    (hcall : c.call = some method) (hadvance : c.advance P natives = .ok call m) :
    Course P natives m₀ (c :: past) ⟨call, m⟩ :=
  h.round (by rw [Config.halted, hcall]; rfl) hadvance

lemma Machine.fits_start {P : Program} {registry : Registry} {options : Options}
    {journal : Journal} {natives : Natives} {image : Image} {m₀ : Machine}
    (hload : Image.load P registry options journal = .ok (natives, image))
    (hstart : Machine.start P options image = .ok m₀) : m₀.Fits P options.registers := by
  obtain ⟨-, journal', rfl⟩ := Image.load_eq_ok hload
  obtain ⟨-, himage, -, hthread⟩ := Machine.start_eq_ok hstart
  refine ⟨?_, ?_, ?_⟩
  · rw [hthread]
    exact (Cells.size_overwrite _ _ _).trans (Cells.size_fresh _)
  · rw [himage]
    exact Array.size_replicate
  · rw [hthread]

section

variable {P : Program} {ps : List (String × Package)} {slot size : Nat} {main : MethodId}
  {natives : Natives} {m₀ : Machine} {past : List Config} {c : Config}

namespace Program.StartUp

/-- The entry code leads to the first block. -/
lemma exists_starting (hP : P.StartUp ps slot main) (hstart : Config.At ⟨none, m₀⟩ 0 2)
    (hroom : 2 ≤ m₀.thread.registers.size) :
    ∃ past c, Course P natives m₀ past c ∧ c.Starting ps 0 := by
  obtain ⟨m₁, hround₁, hat₁, htag₁, -⟩ := Config.advance_enter natives hP hstart hroom
  have hcourse₁ := Course.start.round_at hstart (by decide) hround₁
  obtain ⟨m₂, hround₂, hframe₂, hvalue₂, -⟩ := Config.advance_enterCall natives hP hat₁
  have hcourse₂ := hcourse₁.round_at hat₁ (by decide) hround₂
  obtain ⟨m₃, hround₃, hstarting, -⟩ := Config.advance_enterDispatch (c := ⟨some .call, m₂⟩)
    natives hP rfl ((congrArg Value.tag hvalue₂).trans htag₁) hframe₂
  exact ⟨_, _, hcourse₂.round_call rfl hround₃, hstarting⟩

/-- A block leads to the initialiser of its package. -/
lemma exists_entered (hP : P.StartUp ps slot main) (hsize : 6 ≤ size)
    (hfits : ∀ {past c}, Trail P natives m₀ past c → c.machine.Fits P size)
    (hcourse : Course P natives m₀ past c) {i : Nat} {y : Placement}
    (hy : (placements [] ps)[i]? = some y) (hc : c.Starting ps i) :
    ∃ c₁ c₂ c₃, Course P natives m₀ (c₂ :: c₁ :: c :: past) c₃ ∧ c₃.Entered y ∧
      c₃.machine.thread.registers = (c.machine.thread.registers.setIfInBounds 4
        (P.nat 2)).setIfInBounds 5 ⟨P.intClass, UInt32.ofNat (blockPos ps i + 12)⟩ ∧
      c₃.machine.image.globals = c.machine.image.globals := by
  have hlt := hP.block_lt (Config.lt_of_getElem? hy)
  have hroom : 2 ≤ c.machine.thread.registers.size := by
    rw [(hfits hcourse.trail).registers]
    omega
  obtain ⟨m₁, hround₁, hat₁, htag₁, hregisters₁, hglobals₁⟩ :=
    Config.Starting.advance natives hP hy hc hroom
  have hcourse₁ := hcourse.round_at hc (by omega) hround₁
  obtain ⟨m₂, hround₂, hframe₂, hvalue₂, hregisters₂, hglobals₂⟩ :=
    Config.advance_initCall natives hP hy hat₁ (hfits hcourse₁.trail) hsize
  have hcourse₂ := hcourse₁.round_at hat₁ (by omega) hround₂
  obtain ⟨m₃, hround₃, hentered, hregisters₃, hglobals₃⟩ :=
    Config.advance_initDispatch (c := ⟨some .call, m₂⟩) natives hP (List.mem_of_getElem? hy) rfl
      ((congrArg Value.tag hvalue₂).trans htag₁) hframe₂
  refine ⟨_, _, _, hcourse₂.round_call rfl hround₃, hentered, ?_, ?_⟩
  · rw [hregisters₃, hregisters₂, hregisters₁]
  · rw [hglobals₃, hglobals₂, hglobals₁]

/-- Behind the last block the main method is called. -/
lemma exists_called (hP : P.StartUp ps slot main)
    (hfits : ∀ {past c}, Trail P natives m₀ past c → c.machine.Fits P size)
    (hcourse : Course P natives m₀ past c) (hc : c.Starting ps ps.length) :
    ∃ c₁ c₂, Course P natives m₀ (c₁ :: c :: past) c₂ ∧ c₂.call = some main ∧
      c₂.machine.thread.frame = 2 ∧
      c.machine.image.globals[slot]? = some c₂.machine.thread.value ∧
      c₂.machine.thread.registers = c.machine.thread.registers := by
  have hcode : blockPos ps ps.length + 11 < 2 ^ 32 := hP.size ▸ hP.room
  obtain ⟨m₁, hround₁, hat₁, hvalue₁, hregisters₁⟩ :=
    Config.Starting.advance_load natives hP hc (hfits hcourse.trail)
  have hcourse₁ := hcourse.round_at hc (by omega) hround₁
  obtain ⟨m₂, hround₂, hframe₂, hvalue₂, hregisters₂⟩ := Config.advance_loadCall natives hP hat₁
  refine ⟨_, _, hcourse₁.round_at hat₁ (by omega) hround₂, rfl, hframe₂, ?_, ?_⟩
  · rw [hvalue₁, hvalue₂]
  · exact hregisters₂.trans hregisters₁

/-- **A program that starts by its start code initialises its packages in order.** -/
lemma initialises {source : Source} (hP : P.StartUp ps slot main) (hordered : source.Ordered ps)
    (hsize : 6 ≤ size) (hfits : ∀ {past c}, Trail P natives m₀ past c → c.machine.Fits P size)
    (hstart : Config.At ⟨none, m₀⟩ 0 2)
    (hrecord : m₀.thread.registers[2]? = some (P.nat 0) ∧
      m₀.thread.registers[3]? = some ⟨P.intClass, Thread.halt⟩) :
    Initialises P natives m₀ ps slot main where
  reaches := hP.exists_starting hstart (by
    rw [(hfits .start).registers]
    omega)
  enters past c i y hcourse hy hc := by
    obtain ⟨c₁, c₂, c₃, hcourse', hentered, hregisters, hglobals⟩ :=
      hP.exists_entered hsize hfits hcourse hy hc
    have hfile : c.machine.thread.registers.size = size := (hfits hcourse.trail).registers
    refine ⟨c₁, c₂, c₃, hcourse', hentered, ?_, ?_, fun k hk hk' => ?_, hglobals⟩
    · rw [hregisters, Array.getElem?_setIfInBounds_ne (by decide),
        Array.getElem?_setIfInBounds_self_of_lt (by omega)]
    · rw [hregisters, Array.getElem?_setIfInBounds_self_of_lt (by
        rw [Array.size_setIfInBounds]
        omega)]
    · rw [hregisters, Array.getElem?_setIfInBounds_ne hk'.symm,
        Array.getElem?_setIfInBounds_ne hk.symm]
  keeps past c i y hcourse hy hc := by
    have hlt := hP.block_lt (Config.lt_of_getElem? hy)
    obtain ⟨m, hround, hstarting, hregisters, hkept, hothers⟩ :=
      Config.Returned.advance natives hP hy hc (hfits hcourse.trail)
    exact ⟨_, hcourse.round_at hc (by omega) hround, hstarting, hkept, hothers, hregisters⟩
  calls past c hcourse hc := by
    obtain ⟨c₁, c₂, hcourse', hcall, hframe, hvalue, hregisters⟩ :=
      hP.exists_called hfits hcourse hc
    refine ⟨c₁, c₂, hcourse', hcall, hframe, hvalue, fun hleaves => ?_⟩
    obtain ⟨h₂, h₃⟩ := hcourse.trail.sameRecord hP hsize hfits hleaves
    rw [hregisters]
    exact ⟨h₂.trans hrecord.1, h₃.trans hrecord.2⟩
  ordered past c i hcourse hi hc hhome := by
    have hphase := Phase.of_trail hP hsize hfits hstart hcourse.trail hhome
    obtain ⟨hdone, honce⟩ := hphase.of_starting hi hc
    refine ⟨hdone, fun y hy name hname => ?_, honce⟩
    obtain ⟨j, z, hj, hz, hname⟩ := exists_placement_of_imported hordered hy hname
    exact ⟨j, z, hj, hz, hname, hdone j hj z hz⟩

end Program.StartUp

end

/-- **A linked program initialises its packages in order, each after those that it imports, and
then calls the main method.** What is not said of the start-up itself is up to the initialisers:
`ReturnsHome` and `LeavesRecord` say what they may be asked for. -/
theorem start_up_initialises_in_order {source : Source} {entry : String}
    {journal journal' : Journal} {P : Program} (hlink : link source entry journal = .ok P journal')
    (hclasses : P.classes.size ≤ 2 ^ 31) (hmethods : P.methods.size ≤ 2 ^ 32)
    (htable : P.implementations.size ≤ 2 ^ 31) (hcode : P.code.size < 2 ^ 32)
    (hglobals : ∀ ps, source.Closure entry ps → globalBase ps < 2 ^ 32)
    {registry : Registry} (hregistry : registry.KeepsSizes P) {options : Options}
    (hregisters : 6 ≤ options.registers) {journal₁ : Journal} {natives : Natives} {image : Image}
    (hload : Image.load P registry options journal₁ = .ok (natives, image)) {m₀ : Machine}
    (hstart : Machine.start P options image = .ok m₀) :
    ∃ ps main slot, source.Closure entry ps ∧ source.LinksInOrder entry journal ps ∧
      P.methodId? "main" = some main ∧ globalOf? ps entry = some slot ∧
        Initialises P natives m₀ ps slot main := by
  obtain ⟨ps, main, slot, hclosure, horder, hmain, hslot, hP⟩ :=
    exists_startUp hlink hclasses hmethods htable hcode hglobals
  refine ⟨ps, main, slot, hclosure, horder, hmain, hslot, ?_⟩
  have hnatives : ∀ (index : Nat) x, natives.entries[index]? = some x →
      Native.KeepsSizes P x.2 := fun index x hx =>
    hregistry x (Natives.mem_of_resolve (Image.load_eq_ok hload).1 hx)
  obtain ⟨-, -, -, hthread⟩ := Machine.start_eq_ok hstart
  refine hP.initialises hclosure.ordered hregisters
    (fun ht => ht.fits hnatives (Machine.fits_start hload hstart)) ?_ ?_
  · rw [Config.At, hthread]
    exact ⟨rfl, rfl, rfl⟩
  · rw [hthread]
    simp only [Cells.getElem?_overwrite, Cells.size_fresh, List.length_cons, List.length_nil]
    rw [if_pos (by omega), if_pos (by omega)]
    exact ⟨rfl, rfl⟩

/-- The packages of `greeting` in the order in which they are linked. -/
def greetingOrder : List (String × Package) := greeting.entries.reverse

/-- There is no other order: what the application imports comes first. -/
lemma eq_greetingOrder {ps : List (String × Package)} (h : greeting.source.Closure "app" ps) :
    ps = greetingOrder := by
  have hentry : ∀ x ∈ ps, x ∈ greetingOrder := fun x hx =>
    List.mem_reverse.mpr (Library.load_eq_ok (h.ordered.load x hx))
  obtain ⟨text, app, horder⟩ : ∃ text app, greetingOrder = [("text", text), ("app", app)] :=
    ⟨_, _, rfl⟩
  have himported : app.imported = ["text"] := by
    have happ : greetingOrder[1]? = some ("app", app) := by rw [horder]; rfl
    have htest : greetingOrder[1]?.all (fun x => x.2.imported = ["text"]) = true := by
      decide +kernel
    rw [happ] at htest
    exact of_decide_eq_true htest
  rw [horder] at hentry ⊢
  -- the application comes last
  obtain ⟨names, hnames⟩ := List.getLast?_eq_some_iff.mp h.last
  obtain ⟨front, last, rfl, rfl, hlast⟩ := List.map_eq_append_iff.mp hnames
  obtain ⟨z, rfl, hz⟩ := List.map_eq_singleton_iff.mp hlast
  have happ : z = ("app", app) := by
    have hmem := hentry z (by simp)
    simp only [List.mem_cons, List.not_mem_nil, or_false] at hmem
    rcases hmem with rfl | rfl
    · have hname : "text" = "app" := hz
      exact absurd hname (by decide)
    · rfl
  subst happ
  -- before it there is only what it imports, and that once
  have hnodup := h.ordered.nodup
  rw [List.map_append, List.nodup_append] at hnodup
  have htext : ∀ x ∈ front, x = ("text", text) := by
    intro x hx
    have hmem := hentry x (List.mem_append_left _ hx)
    simp only [List.mem_cons, List.not_mem_nil, or_false] at hmem
    rcases hmem with rfl | rfl
    · rfl
    · exact absurd rfl (hnodup.2.2 _ (List.mem_map_of_mem hx) _ (by simp))
  have hfront := List.eq_replicate_of_mem htext
  have himports := h.ordered.imports front _ [] rfl "text" (himported ▸ List.mem_singleton_self _)
  have hlength : front.length = 1 := by
    have hle : front.length ≤ 1 := by
      have hkeys := hnodup.1
      rw [hfront, List.map_replicate, List.nodup_replicate] at hkeys
      exact hkeys
    have hpos : 0 < front.length := by
      rw [← List.length_map (f := Prod.fst)]
      exact List.length_pos_of_mem himports
    omega
  rw [hfront, hlength]
  rfl

/-- The application and what it imports are initialised, each by an initialiser that returns
through its own record, and the main method is called. -/
theorem start_up_initialises_in_order_greeting : ∃ P journal natives image m₀,
    link greeting.source "app" {} = .ok P journal ∧
    Image.load P .core ⟨16, 16⟩ {} = .ok (natives, image) ∧
    Machine.start P ⟨16, 16⟩ image = .ok m₀ ∧
    ∃ ps main slot, greeting.source.Closure "app" ps ∧
      greeting.source.LinksInOrder "app" {} ps ∧ P.methodId? "main" = some main ∧
      globalOf? ps "app" = some slot ∧ Initialises P natives m₀ ps slot main ∧
      ∃ past c, Course P natives m₀ past c ∧ c.Starting ps ps.length ∧
        ReturnsHome ps (c :: past) ∧ LeavesRecord ps (c :: past) := by
  have hprogram : (greeting.program? "app").any (fun P =>
      decide (P.classes.size ≤ 2 ^ 31 ∧ P.methods.size ≤ 2 ^ 32 ∧
        P.implementations.size ≤ 2 ^ 31 ∧ P.code.size < 2 ^ 32) &&
      (Image.load P .core ⟨16, 16⟩ {}).toOption.any fun x =>
        (Machine.start P ⟨16, 16⟩ x.2).toOption.any fun m₀ =>
          Config.comesTo P x.1 (fun past c => decide (c.Starting greetingOrder 2 ∧
            ReturnsHome greetingOrder (c :: past) ∧ LeavesRecord greetingOrder (c :: past)))
            17 m₀) = true := by
    decide +kernel
  obtain ⟨P, hP, htest⟩ := (Option.any_eq_true _ _).mp hprogram
  obtain ⟨journal, hlink⟩ := Library.program?_eq_some.mp hP
  rw [Bool.and_eq_true, decide_eq_true_eq, Option.any_eq_true] at htest
  obtain ⟨⟨hclasses, hmethods, htable, hcode⟩, ⟨natives, image⟩, hload, htest⟩ := htest
  obtain ⟨m₀, hstart, htest⟩ := (Option.any_eq_true _ _).mp htest
  have hok : ∀ {α : Type} {x : Except Fault α} {a : α}, x.toOption = some a → x = .ok a := by
    intro α x a hx
    cases x with
    | ok b => rw [Option.some.inj hx]
    | error e => cases hx
  have hglobals : ∀ ps, greeting.source.Closure "app" ps → globalBase ps < 2 ^ 32 := by
    intro ps hps
    rw [eq_greetingOrder hps]
    decide +kernel
  obtain ⟨ps, main, slot, hclosure, horder, hmain, hslot, hinitialises⟩ :=
    start_up_initialises_in_order hlink hclasses hmethods htable hcode hglobals
      (Registry.keepsSizes_core P) (by decide) (hok hload) (hok hstart)
  obtain ⟨past, c, hcourse, htest⟩ := Course.exists_of_comesTo htest
  obtain ⟨hstarting, hhome, hleaves⟩ := of_decide_eq_true htest
  refine ⟨P, journal, natives, image, m₀, hlink, hok hload, hok hstart, ps, main, slot, hclosure,
    horder, hmain, hslot, hinitialises, past, c, hcourse, ?_⟩
  rw [eq_greetingOrder hclosure]
  exact ⟨hstarting, hhome, hleaves⟩

end EffectMachine
