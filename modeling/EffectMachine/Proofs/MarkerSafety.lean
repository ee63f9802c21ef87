/-
The marker of collections as a value of programs.

A collection tells an object that it has moved by the class of its first word. The class is not
declared, but a program can name it: an object without fields is inline, so creating one of an
undeclared class gives a value of that class, which may then be stored in the first word of an
object.

* `Config.ReadsInUse`: a round reads only registers in use;
* `Config.MakesMarker`: a round makes a value of the marker's class;
* `marker_never_held`: **a run that does not make the marker does not hold it**, and its collections
  keep the fields of what it reaches;
* `marker_forged`: a linked program that makes the marker, and a collection that then takes one
  object for another.
-/
import EffectMachine.Proofs.CollectionCopy
import EffectMachine.Proofs.LinkAcceptance
import EffectMachine.Proofs.SoundMachines

namespace EffectMachine

namespace Config

variable {P : Program} {natives : Natives} {c : Config}

/-- The next round reads no register of the frame, and no argument, past the registers in use. -/
structure ReadsInUse (P : Program) (natives : Natives) (c : Config) : Prop where
  load : ∀ r, c.instruction? P = some (.load r) → r.toNat < c.machine.thread.frameEnd
  create : ∀ cls base, c.instruction? P = some (.create cls base) →
    P.fieldCount cls = 0 ∨ base.toNat + P.fieldCount cls ≤ c.machine.thread.frameEnd
  native : ∀ name native, c.native? P natives = some (name, native) →
    ∀ i ∈ c.machine.argumentsRead P name, recordSize + i < c.machine.thread.frameEnd

/-- The next round makes a value of the marker's class. -/
def MakesMarker (P : Program) (c : Config) : Prop :=
  ∃ base, c.instruction? P = some (.create .forwarded base)

/-- A round that does not make the marker stays in its frame. -/
lemma ReadsInUse.inFrame (h : c.ReadsInUse P natives) (hmarker : ¬ c.MakesMarker P) :
    c.InFrame P natives where
  load := h.load
  create cls base hc := ⟨fun heq => hmarker ⟨base, heq ▸ hc⟩, h.create cls base hc⟩
  native := h.native

/-- Apart from making the marker, staying in the frame is all there is to it. -/
lemma ReadsInUse.of_inFrame (h : c.InFrame P natives) : c.ReadsInUse P natives where
  load := h.load
  create cls base hc := (h.create cls base hc).2
  native := h.native

/-- Making the marker reads no register. -/
lemma MakesMarker.readsInUse (h : c.MakesMarker P) (hfields : P.fieldCount .forwarded = 0) :
    c.ReadsInUse P natives := by
  obtain ⟨base, hc⟩ := h
  refine ⟨fun r hr => ?_, fun cls base' hc' => ?_, fun name native hnative => ?_⟩
  · cases hc.symm.trans hr
  · cases hc.symm.trans hc'
    exact .inl hfields
  · obtain ⟨_ | method, m⟩ := c
    · cases hnative
    · cases hc

end Config

/-- **A run that does not make the marker does not hold it.** In every configuration that a run
comes through, neither the value register nor a register in use, a global or a word of the heap
has the class by which collections tell what they have moved. So a collection from roots that the
machine holds leaves a copy of what they reach, and rounds carry along the fields of what they
move, except where they write an array. -/
theorem marker_never_held {P : Program} (hP : P.Linked) (hscalars : P.InlineScalars)
    {options : Options} (hwords : options.heapWords ≤ 2 ^ 32) {natives : Natives} {m₀ : Machine}
    (hstart : Starts P options natives m₀) {past : List Config} {c : Config}
    (ht : Trail P natives m₀ past c) (hreads : ∀ c' ∈ past, c'.ReadsInUse P natives)
    (hmarker : ∀ c' ∈ past, ¬ c'.MakesMarker P) :
    (∀ v, c.machine.Keeps v → v.tag ≠ .forwarded) ∧
    (∀ {ρ : Type} (R : Roots ρ) (holder : ρ) (pending : List Value),
      (∀ v ∈ R.get holder ++ pending, c.machine.Keeps v) →
      ∃ (place : Nat → Nat) (h' : Heap) (roots' pending' : List Value),
        Heap.collectWith P.fieldCount R pending (c.machine.image.heap, holder) =
          .ok pending' (h', R.set holder roots') ∧
        c.machine.image.heap.Copies P.fieldCount h' (R.get holder ++ pending) place ∧
        List.Forall₂ (Value.MovedBy P.fieldCount place) (R.get holder) roots' ∧
        List.Forall₂ (Value.MovedBy P.fieldCount place) pending pending') ∧
    (c.ReadsInUse P natives → ¬ c.MakesMarker P → ∀ call m', c.advance P natives = .ok call m' →
      (∀ v, m'.Keeps v → v.tag ≠ .forwarded) ∧
      ∀ v w, c.machine.Keeps v → c.moved? P natives m' v = some w → w.tag = v.tag ∧
        (c.writes P natives v = false → ∀ i < P.fieldCount v.tag,
          c.moved? P natives m' (c.machine.image.heap.front.cell (v.offset + i)) =
            some (m'.image.heap.front.cell (w.offset + i)))) := by
  obtain ⟨hsettled, cs, hs⟩ := ht.sound (hP.plain hscalars) hwords hstart fun c' hc' =>
    (hreads c' hc').inFrame (hmarker c' hc')
  refine ⟨fun v hv => (hs.kept v hv).ordinary, fun R holder pending hheld => ?_,
    fun hreads' hmarker' call m' hadvance => ?_⟩
  · exact hs.heap.exists_copies fun v hv => (hs.kept v (hheld v hv)).names
  · obtain ⟨cs', hs', hcarries⟩ := Config.carries hP hscalars
      (fun _ _ => hstart.mem_coreNatives) hs hsettled (hreads'.inFrame hmarker') hadvance
    refine ⟨fun v hv => (hs'.kept v hv).ordinary, fun v w hv hw => ⟨hcarries.tag v w hw, ?_⟩⟩
    exact hcarries.field v w (hs.kept v hv) hw

/-- A run whose heap has to be collected on the way, and which never holds the marker. -/
theorem marker_never_held_reply :
    (∃ m, Machine.run replyProgram replyNatives 60 (replyStart ⟨12, 24⟩) =
      .ok (some (replyProgram.int 40)) m ∧ m.image.heap.stats.collections = 1) ∧
    ∀ past c, Trail replyProgram replyNatives (replyStart ⟨12, 24⟩) past c →
      (∀ c' ∈ past, c'.ReadsInUse replyProgram replyNatives ∧ ¬ c'.MakesMarker replyProgram) ∧
      ∀ v, c.machine.Keeps v → v.tag ≠ .forwarded := by
  have hcheck : Config.checkRun replyProgram replyNatives
      (fun _ c => c.InFrame replyProgram replyNatives) 60 []
      ⟨none, replyStart ⟨12, 24⟩⟩ = true := by decide +kernel
  have hend : Machine.gives (Machine.run replyProgram replyNatives 60 (replyStart ⟨12, 24⟩))
      (some (replyProgram.int 40)) (·.image.heap.stats.collections = 1) = true := by
    decide +kernel
  refine ⟨?_, fun past c ht => ?_⟩
  · obtain ⟨m, hrun, hcollections⟩ := Machine.exists_of_gives hend
    exact ⟨m, hrun, of_decide_eq_true hcollections⟩
  · have hframe : ∀ c' ∈ past, c'.InFrame replyProgram replyNatives := fun c' hc' => by
      obtain ⟨front, back, rfl⟩ := List.append_of_mem hc'
      exact of_decide_eq_true ((ht.of_suffix ⟨front, rfl⟩).of_checkRun hcheck)
    have hreads : ∀ c' ∈ past, c'.ReadsInUse replyProgram replyNatives := fun c' hc' =>
      .of_inFrame (hframe c' hc')
    have hmarker : ∀ c' ∈ past, ¬ c'.MakesMarker replyProgram := by
      rintro c' hc' ⟨base, hc⟩
      exact ((hframe c' hc').create _ base hc).1 rfl
    exact ⟨fun c' hc' => ⟨hreads c' hc', hmarker c' hc'⟩,
      (marker_never_held linked_reply inlineScalars_reply (by decide)
        (starts_reply ⟨12, 24⟩ (by decide)) ht hreads hmarker).1⟩

/-! ### Forging the marker -/

/-- A package that makes the pair of 7 and 8, and then the pair of the marker and 5, and gives the
second field of the latter after a collection. -/
def markedPackage : Package where
  classes := #[⟨"Int", .int, 0⟩, ⟨"True", .truth, 0⟩, ⟨"False", .falsehood, 0⟩,
    ⟨"Main", .user, 0⟩, ⟨"Pair", .user, 2⟩]
  methods := #[⟨"main"⟩]
  implementations := #[⟨⟨3⟩, ⟨0⟩, .standard, 7⟩]
  relocations := #[⟨.cls, 3, 1⟩, ⟨.cls, 4, 22⟩, ⟨.cls, 4, 45⟩, ⟨.cls, 4, 53⟩, ⟨.cls, 4, 64⟩]
  code := ([.create ⟨0⟩ 0, .ret,
    .natural 7, .store 2, .natural 8, .store 3, .create ⟨0⟩ 2, .store 4,
    .create .forwarded 0, .store 2, .natural 5, .store 3, .create ⟨0⟩ 2, .store 5,
    .create ⟨0⟩ 2, .natural 5, .create ⟨0⟩ 2,
    .load 5, .field 1, .ret].flatMap Instruction.encode).toArray

/-- The package as a program. -/
def markedProgram : Program where
  globalCount := 1
  classes := #[⟨"Empty", .user, 0⟩, ⟨"ProgramInit", .user, 0⟩,
    ⟨"Continuation", .continuation, 1⟩, ⟨"PackageInit", .user, 0⟩, ⟨"Int", .int, 0⟩,
    ⟨"True", .truth, 0⟩, ⟨"False", .falsehood, 0⟩, ⟨"Main", .user, 0⟩, ⟨"Pair", .user, 2⟩]
  methods := #[⟨"call", -1⟩, ⟨"main", -6⟩]
  implementations := #[⟨⟨1⟩, ⟨0⟩, .standard, 89⟩, ⟨⟨7⟩, ⟨1⟩, .standard, 19⟩,
    ⟨⟨3⟩, ⟨0⟩, .standard, 12⟩]
  code := ([.create ⟨1⟩ 0, .call ⟨0⟩ 0, .create ⟨7⟩ 0, .ret,
    .natural 7, .store 2, .natural 8, .store 3, .create ⟨8⟩ 2, .store 4,
    .create .forwarded 0, .store 2, .natural 5, .store 3, .create ⟨8⟩ 2, .store 5,
    .create ⟨8⟩ 2, .natural 5, .create ⟨8⟩ 2,
    .load 5, .field 1, .ret,
    .create ⟨3⟩ 0, .call ⟨0⟩ 2, .globalStore 0, .globalLoad 0,
    .call ⟨1⟩ 0].flatMap Instruction.encode).toArray
  builtins := { int := ⟨4⟩, truth := ⟨5⟩, falsehood := ⟨6⟩, continuation := ⟨2⟩ }

/-- The machine at the start of the program. -/
def markedStart : Machine where
  image := .fresh markedProgram ⟨6, 16⟩ (Journal.record {} (.loadedProgram 1 0 6))
  thread := ⟨0, 2, 2, 0, .nil, (Cells.fresh 16).overwrite 0
    [markedProgram.int 0, .nil, markedProgram.int 0, ⟨markedProgram.intClass, Thread.halt⟩]⟩

lemma inlineScalars_marked : markedProgram.InlineScalars where
  int := by decide
  truth := by decide
  falsehood := by decide

/-- **The marker can be forged.** A linked program creates a value of the marker's class, reading
only registers in use, and stores it in the first word of a pair. The next collection takes the
pair for one that has been moved to the first word of the heap, where it has put another pair: the
second field of a pair held in a register is 5 before the collection and 8 after it. -/
theorem marker_forged :
    (∃ journal, link (Library.source ⟨[("main", markedPackage)]⟩) "main" {} =
      .ok markedProgram journal) ∧
    markedProgram.Linked ∧ markedProgram.InlineScalars ∧
    Starts markedProgram ⟨6, 16⟩ ⟨#[]⟩ markedStart ∧
    (∀ past c, Trail markedProgram ⟨#[]⟩ markedStart past c →
      c.ReadsInUse markedProgram ⟨#[]⟩) ∧
    (∃ past c, Trail markedProgram ⟨#[]⟩ markedStart past c ∧
      c.machine.thread.value.tag = .forwarded) ∧
    ∃ past c call m', Trail markedProgram ⟨#[]⟩ markedStart past c ∧
      c.advance markedProgram ⟨#[]⟩ = .ok call m' ∧
      m'.image.heap.stats.collections = c.machine.image.heap.stats.collections + 1 ∧
      7 < c.machine.thread.liveEnd ∧ 7 < m'.thread.liveEnd ∧
      c.machine.image.field markedProgram (c.machine.thread.registers.cell 7) 1 =
        .ok (markedProgram.int 5) ∧
      m'.image.field markedProgram (m'.thread.registers.cell 7) 1 =
        .ok (markedProgram.int 8) := by
  have hprogram : Library.program? ⟨[("main", markedPackage)]⟩ "main" = some markedProgram := by
    decide +kernel
  have hlinked : markedProgram.Linked :=
    .of_all (by decide) (by decide) fun kind => by cases kind <;> decide
  have hreads : Config.checkRun markedProgram ⟨#[]⟩ (fun _ c =>
      c.InFrame markedProgram ⟨#[]⟩ ||
        c.instruction? markedProgram = some (.create .forwarded 0)) 40 []
      ⟨none, markedStart⟩ = true := by decide +kernel
  have hvalue : ((Config.follow markedProgram ⟨#[]⟩ 19 ⟨none, markedStart⟩).any
      fun c => c.machine.thread.value.tag = .forwarded) = true := by decide +kernel
  have hfield : ((Config.follow markedProgram ⟨#[]⟩ 26 ⟨none, markedStart⟩).any fun c =>
      Machine.gives (c.advance markedProgram ⟨#[]⟩) none fun m' =>
        m'.image.heap.stats.collections = c.machine.image.heap.stats.collections + 1 ∧
        7 < c.machine.thread.liveEnd ∧ 7 < m'.thread.liveEnd ∧
        c.machine.image.field markedProgram (c.machine.thread.registers.cell 7) 1 =
          .ok (markedProgram.int 5) ∧
        m'.image.field markedProgram (m'.thread.registers.cell 7) 1 =
          .ok (markedProgram.int 8)) = true := by decide +kernel
  refine ⟨Library.program?_eq_some.mp hprogram, hlinked, inlineScalars_marked, ⟨{}, _, rfl, rfl⟩,
    fun past c ht => ?_, ?_, ?_⟩
  · rcases Bool.or_eq_true_iff.mp (ht.of_checkRun hreads) with hframe | hmarker
    · exact .of_inFrame (of_decide_eq_true hframe)
    · exact Config.MakesMarker.readsInUse ⟨0, of_decide_eq_true hmarker⟩ (by decide)
  · obtain ⟨c, hfollow, hc⟩ := (Option.any_eq_true _ _).mp hvalue
    obtain ⟨past, ht⟩ := Trail.start.exists_of_follow hfollow
    exact ⟨past, c, ht, of_decide_eq_true hc⟩
  · obtain ⟨c, hfollow, hgives⟩ := (Option.any_eq_true _ _).mp hfield
    obtain ⟨past, ht⟩ := Trail.start.exists_of_follow hfollow
    obtain ⟨m', hadvance, htest⟩ := Machine.exists_of_gives hgives
    exact ⟨past, c, none, m', ht, hadvance, of_decide_eq_true htest⟩

end EffectMachine
