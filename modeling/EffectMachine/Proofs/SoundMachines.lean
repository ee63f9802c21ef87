/-
Machines whose values name objects, and what rounds carry along.

What a machine holds names objects of its heap. Rounds move the objects, and what has been
held before is then found where the collections have put it.

* `Machine.Sound`: whatever the machine holds is inline or names an object;
* `Machine.Sound.alloc`: **allocation keeps machines sound**, and carries objects along;
* `Machine.Stores`, `Machine.Reified.stores`: **a continuation holds the registers that have been
  captured**.
-/
import EffectMachine.Proofs.HeldValues

namespace EffectMachine

/-- An array class that has as many fields as its arrays are long gives that length, if it is
not too large. -/
lemma ClassId.arrayLength?_array {P : Program} {n : Nat} (hpos : 0 < n) (hn : n < 2 ^ 31)
    (hcount : n = P.fieldCount (.array n)) : (ClassId.array n).arrayLength? = some n := by
  have hcode : (ClassId.array n).code.toInt = -(n : Int) - 1 :=
    Int32.toInt_ofInt_of_le (by omega) (by omega)
  have hindex : (ClassId.array n).index? = none := by
    refine if_neg fun hle => ?_
    rw [Int32.le_iff_toInt_le, hcode] at hle
    have hzero : (0 : Int32).toInt = 0 := rfl
    omega
  rw [Program.fieldCount] at hcount
  cases hlength : (ClassId.array n).arrayLength? with
  | some length =>
      rw [hlength] at hcount
      exact congrArg some hcount.symm
  | none =>
      rw [hlength] at hcount
      dsimp only at hcount
      rw [hindex] at hcount
      dsimp only at hcount
      omega

/-- A value is known by its class and its first word. -/
lemma Value.eq_of_object_eq {v w : Value} (h : v.object = w.object) : v = w := by
  obtain ⟨hoffset, htag⟩ := Prod.mk.inj h
  obtain ⟨tag, data⟩ := v
  obtain ⟨tag', data'⟩ := w
  exact Value.mk.injEq .. ▸ ⟨htag, UInt32.toNat_inj.mp hoffset⟩

namespace Machine

variable {P : Program} {m m' : Machine} {cs : List ClassId}

/-- The words in use are made of objects of the given classes, and whatever the machine holds
is inline or names one of them. -/
structure Sound (P : Program) (cs : List ClassId) (m : Machine) : Prop where
  heap : m.image.heap.Sound P.fieldCount cs
  kept : ∀ v, m.Keeps v → v.Sound P.fieldCount cs

/-- What is known to a sound machine is sound. -/
lemma Sound.knows (hs : m.Sound P cs) {v : Value} (hv : m.Knows P v) :
    v.Sound P.fieldCount cs :=
  hv.elim (fun hinline => .inline hinline.2 hinline.1) (hs.kept v)

lemma Sound.draws (hs : m.Sound P cs) (hheap : m'.image.heap = m.image.heap)
    (hdraws : m.Draws P m') : m'.Sound P cs :=
  ⟨hheap ▸ hs.heap, fun v hv => hs.knows (hdraws v hv)⟩

/-- The roots of an allocation are held. -/
lemma keeps_of_mem_roots {v : Value}
    (hv : v ∈ (Roots.array.pair Thread.roots).get (m.image.globals, m.thread)) : m.Keeps v := by
  rcases List.mem_append.mp hv with hv | hv
  · exact .global (Array.mem_toList_iff.mp hv)
  · rcases List.mem_cons.mp hv with rfl | hv
    · exact .value
    · obtain ⟨i, hi, rfl⟩ := Array.mem_extract_iff_getElem.mp (Array.mem_toList_iff.mp hv)
      dsimp only at hi ⊢
      have hsize : 0 + i < m.thread.registers.size := by omega
      have hcell : m.thread.registers.cell (0 + i) = m.thread.registers[0 + i] := by
        rw [Cells.cell_eq_getD, Array.getElem?_eq_getElem hsize, Option.getD_some]
      exact hcell ▸ .register (by omega)

/-- What has gone where objects have been carried is sound there. -/
lemma Moves.sound {f : Value → Option Value} {cs' : List ClassId} (h : Moves f m m')
    (hempty : P.fieldCount .empty = 0) (hs : m.Sound P cs)
    (hcarries : Heap.Carries P.fieldCount f cs cs' m.image.heap m'.image.heap)
    (hheap : m'.image.heap.Sound P.fieldCount cs') : m'.Sound P cs' := by
  refine ⟨hheap, fun v hv => ?_⟩
  cases hv with
  | value => exact hcarries.sound _ _ (hs.kept _ .value) h.value
  | @register i hi =>
      rw [h.liveEnd] at hi
      by_cases hsize : i < m.thread.registers.size
      · exact hcarries.sound _ _ (hs.kept _ (.register hi)) (h.live i hi hsize)
      · -- there is no such register
        rw [Cells.cell_eq_getD, Array.getElem?_eq_none (by rw [h.size]; omega)]
        exact .inline (show ClassId.empty ≠ .forwarded by decide) hempty
  | global hv =>
      obtain ⟨i, hi, rfl⟩ := List.mem_iff_getElem.mp (Array.mem_toList_iff.mpr hv)
      have hi' : i < m.image.globals.toList.length := h.globals.length_eq.symm ▸ hi
      exact hcarries.sound _ _
        (hs.kept _ (.global (Array.mem_toList_iff.mp (List.getElem_mem hi'))))
        ((List.forall₂_iff_get.mp h.globals).2 i hi' hi)
  | word hi => exact hheap.words _ hi

/-- **Allocation keeps machines sound**, and carries objects along. -/
lemma Sound.alloc (hs : m.Sound P cs) (hempty : P.fieldCount .empty = 0) {cls : ClassId}
    {fields : List Value} {x : Value} (hfields : ∀ v ∈ fields, v.Sound P.fieldCount cs)
    (hcls : cls ≠ .forwarded) (ha : Machine.alloc P cls fields m = .ok x m') :
    ∃ cs', m'.Sound P cs' ∧
      Heap.Carries P.fieldCount (m.moved? P m') cs cs' m.image.heap m'.image.heap ∧
      x.Sound P.fieldCount cs' ∧ ∀ i v, fields[i]? = some v →
        m.moved? P m' v = some (m'.image.heap.front.cell (x.offset + i)) := by
  obtain ⟨-, hmoves⟩ := alloc_moved? hs.heap.room ha
  obtain ⟨hlen, ws, ha, -⟩ := alloc_eq_ok ha
  obtain ⟨cs', hheap, hcarries, hx, hnew⟩ := Heap.alloc_carries hs.heap
    (fun v hv => hs.kept v (keeps_of_mem_roots hv)) hfields hcls hlen ha
  exact ⟨cs', hmoves.sound hempty hs hcarries hheap, hcarries, hx, hnew⟩

/-! ### Making a continuation -/

variable {body : Value} {m₁ m₂ : Machine} {s c : Nat} {vs : List Value} {array k : Value}

/-- A sound machine stays sound when its value register is set to a sound value. -/
lemma Sound.capturing (hs : m.Sound P cs) (hbody : body.Sound P.fieldCount cs) :
    (m.capturing body).Sound P cs := by
  refine ⟨hs.heap, fun v hv => ?_⟩
  cases hv with
  | value => exact hbody
  | register hi => exact hs.kept _ (.register hi)
  | global hv => exact hs.kept _ (.global hv)
  | word hi => exact hs.kept _ (.word hi)

/-- What a sound continuation has captured is read from its array. -/
lemma captured_of_sound (hheap : m.image.heap.Sound P.fieldCount cs)
    (hk : k.Sound P.fieldCount cs) (hpos : 0 < P.fieldCount k.tag) {n : Nat}
    (hn : (m.image.heap.front.cell k.offset).tag.arrayLength? = some n) :
    ∃ words, m.captured P k = .ok words ∧ words.length = n ∧ ∀ i < n, words[i]? =
      some (m.image.heap.front.cell ((m.image.heap.front.cell k.offset).offset + i)) := by
  have hend : k.offset + P.fieldCount k.tag ≤ m.image.heap.top := hheap.end_le (hk.names hpos)
  have hcount : P.fieldCount (m.image.heap.front.cell k.offset).tag = n := by
    rw [Program.fieldCount, hn]
  have harray : n = 0 ∨ (m.image.heap.front.cell k.offset).offset + n ≤ m.image.heap.top := by
    refine (Nat.eq_zero_or_pos n).imp_right fun hn' => ?_
    rw [← hcount] at hn' ⊢
    exact hheap.end_le ((hheap.words k.offset (by omega)).names hn')
  refine ⟨(List.range n).map fun i =>
    m.image.heap.front.cell ((m.image.heap.front.cell k.offset).offset + i), ?_, by simp, ?_⟩
  · exact captured_eq_ok.mpr ⟨hpos, by omega, n, hn,
      (Heap.fields_eq_ok hheap.room).mpr ⟨harray, by simp, fun i hi => by simp [hi]⟩⟩
  · intro i hi
    simp [hi]

/-- Making a continuation carries objects along, and the array of the continuation holds the
registers that have been captured. -/
lemma Reified.carries (h : Reified P body m m₁ m₂ m' s c vs array k) (hP : P.Linked)
    (hs : (m.capturing body).Sound P cs) (hvs : ∀ v ∈ vs, v.Sound P.fieldCount cs) :
    ∃ cs', m₂.Sound P cs' ∧
      Heap.Carries P.fieldCount (reifyMoved? P body m m') cs cs' m.image.heap m₂.image.heap ∧
      k.Sound P.fieldCount cs' ∧
      (m₂.image.heap.front.cell k.offset).tag = .array vs.length ∧ ∀ i v, vs[i]? = some v →
        reifyMoved? P body m m' v = some (m₂.image.heap.front.cell
          ((m₂.image.heap.front.cell k.offset).offset + i)) := by
  have hlength : vs.length = P.fieldCount (.array vs.length) := (alloc_eq_ok h.stored).1
  obtain ⟨cs₁, hs₁, hcarries₁, harray, hcells₁⟩ := hs.alloc hP.empty hvs
    (Program.array_ne_forwarded (Program.fieldCount_forwarded hP.classes) hlength) h.stored
  obtain ⟨cs₂, hs₂, hcarries₂, hk, hcells₂⟩ := hs₁.alloc hP.empty
    (fun v hv => List.mem_singleton.mp hv ▸ harray)
    ((hP.builtins _ _ h.tag).ne_forwarded hP.classes) h.made
  have hcell : m₁.moved? P m₂ array = some (m₂.image.heap.front.cell k.offset) :=
    hcells₂ 0 array rfl
  have hclass : array.tag = .array vs.length := tag_of_alloc h.stored
  rw [h.reifyMoved?_eq]
  refine ⟨cs₂, hs₂, hcarries₁.trans hcarries₂, hk, (hcarries₂.tag _ _ hcell).trans hclass,
    fun i v hi => ?_⟩
  have hmoved : m.moved? P m₁ v = some (m₁.image.heap.front.cell (array.offset + i)) :=
    hcells₁ i v hi
  dsimp only
  rw [hmoved, Option.bind_some]
  refine hcarries₂.field array _ harray hcell i ?_
  rw [hclass, ← hlength]
  exact (List.getElem?_eq_some_iff.mp hi).1

/-- The value is a continuation, and its array holds the values of the list where they have
gone. -/
structure Stores (P : Program) (f : Value → Option Value) (vs : List Value) (m : Machine)
    (k : Value) : Prop where
  tag : P.builtins.get? .continuation = some k.tag
  single : P.fieldCount k.tag = 1
  length : vs.length = P.fieldCount (.array vs.length)
  array : (m.image.heap.front.cell k.offset).tag = .array vs.length
  words : ∀ i v, vs[i]? = some v →
    f v = some (m.image.heap.front.cell ((m.image.heap.front.cell k.offset).offset + i))

/-- A continuation that has been made is sound, and holds the registers captured. -/
lemma Reified.stores (h : Reified P body m m₁ m₂ m' s c vs array k) (hP : P.Linked)
    (hs : (m.capturing body).Sound P cs) (hvs : ∀ v ∈ vs, v.Sound P.fieldCount cs) :
    ∃ cs', m'.image.heap.Sound P.fieldCount cs' ∧ k.Sound P.fieldCount cs' ∧
      m'.Stores P (reifyMoved? P body m m') vs k := by
  obtain ⟨cs', hs₂, -, hk, harray, hwords⟩ := h.carries hP hs hvs
  rw [← h.image.1] at harray hwords
  exact ⟨cs', h.image.1 ▸ hs₂.heap, hk, h.tag, (alloc_eq_ok h.made).1.symm,
    (alloc_eq_ok h.stored).1, harray, hwords⟩

/-- A sound continuation has captured what its array holds. -/
lemma Stores.exists_captured {f : Value → Option Value} (h : m.Stores P f vs k)
    (hheap : m.image.heap.Sound P.fieldCount cs) (hk : k.Sound P.fieldCount cs)
    (hpos : 0 < vs.length) (hsize : vs.length < 2 ^ 31) :
    ∃ words, m.captured P k = .ok words ∧ List.Forall₂ (fun v w => f v = some w) vs words := by
  obtain ⟨words, hwords, hcount, hget⟩ := captured_of_sound hheap hk
    (by rw [h.single]; exact Nat.one_pos)
    (h.array ▸ ClassId.arrayLength?_array hpos hsize h.length)
  refine ⟨words, hwords, List.forall₂_iff_get.mpr ⟨hcount.symm, fun i hi hi' => ?_⟩⟩
  have hword := hget i hi
  rw [List.getElem?_eq_getElem hi', Option.some.injEq] at hword
  rw [List.get_eq_getElem, List.get_eq_getElem, hword]
  exact h.words i _ (List.getElem?_eq_getElem hi)

/-- **A continuation has captured the registers** between the two records, as they are after
the collections of its making. -/
lemma Reified.captured_eq (h : Reified P body m m₁ m₂ m' s c vs array k) (hP : P.Linked)
    (hs : (m.capturing body).Sound P cs) (hvs : ∀ v ∈ vs, v.Sound P.fieldCount cs)
    (hsize : m.thread.registers.size ≤ 2 ^ 31) :
    ∃ words, m'.captured P k = .ok words ∧
      List.Forall₂ (fun v w => reifyMoved? P body m m' v = some w) vs words := by
  obtain ⟨cs', hheap, hk, hstores⟩ := h.stores hP hs hvs
  obtain ⟨hroom, hcount, -⟩ := Registers.slice_eq_ok h.slice
  have hc := Context.handling_spec (shield_eq_ok.mp h.shield).2
  rw [recordSize] at *
  exact hstores.exists_captured hheap hk (by omega) (by omega)

end Machine

/-! ### Rounds -/

namespace Config

variable {P : Program} {natives : Natives} {c : Config} {m' : Machine} {cs cs' : List ClassId}

/-- Where a value that the machine holds is after the next round. -/
def moved? (P : Program) (natives : Natives) (c : Config) (m' : Machine) : Value → Option Value :=
  if c.reifies P natives then
    Machine.reifyMoved? P (c.machine.argument 0)
      (c.machine.readied (.native "core:reify_handler_context" c.machine.thread.value)) m'
  else c.machine.moved? P m'

/-- Where a value is that the machine has held, after the rounds of the configurations since
then, the latest one first. -/
def carried? (P : Program) (natives : Natives) : List Config → Machine → Value → Option Value
  | [], _, v => some v
  | c :: since, m', v => (carried? P natives since c.machine v).bind (c.moved? P natives m')

/-- Whether the next round writes an element of the array. -/
def writes (P : Program) (natives : Natives) (c : Config) (array : Value) : Bool :=
  ((c.native? P natives).any fun (x : String × Native) => x.1 = "core:array_set") &&
    c.machine.argument 0 = array

/-- What names an object before a round names one after it, and what the object holds goes
along unless the round writes it. -/
structure Carries (P : Program) (natives : Natives) (c : Config) (m' : Machine)
    (cs cs' : List ClassId) : Prop where
  tag : ∀ v w, c.moved? P natives m' v = some w → w.tag = v.tag
  sound : ∀ v w, v.Sound P.fieldCount cs → c.moved? P natives m' v = some w →
    w.Sound P.fieldCount cs'
  field : ∀ v w, v.Sound P.fieldCount cs → c.moved? P natives m' v = some w →
    c.writes P natives v = false → ∀ i < P.fieldCount v.tag,
      c.moved? P natives m' (c.machine.image.heap.front.cell (v.offset + i)) =
        some (m'.image.heap.front.cell (w.offset + i))

lemma Carries.of_heap {f : Value → Option Value} (hf : c.moved? P natives m' = f)
    (h : Heap.Carries P.fieldCount f cs cs' c.machine.image.heap m'.image.heap) :
    c.Carries P natives m' cs cs' :=
  ⟨hf ▸ h.tag, hf ▸ h.sound, fun v w hv hw _ => hf ▸ h.field v w hv (hf ▸ hw)⟩

/-- Where values are after a round that makes no continuation. -/
lemma moved?_of_plain (h : c.reifies P natives = false) (m' : Machine) :
    c.moved? P natives m' = c.machine.moved? P m' := by
  rw [moved?, h]
  rfl

/-- Writing an element of an array carries along all other objects. -/
lemma carries_write (hs : c.machine.Sound P cs) {i : Nat} {v : Value} {native : Native}
    (hset : c.native? P natives = some ("core:array_set", native))
    (hi : i < P.fieldCount (c.machine.argument 0).tag)
    (hheap : m'.image.heap = c.machine.image.heap.write ((c.machine.argument 0).offset + i) v)
    (hdraws : c.machine.Draws P m') (harray : c.machine.Keeps (c.machine.argument 0)) :
    ∃ cs', m'.Sound P cs' ∧ c.Carries P natives m' cs cs' := by
  have hobject := (hs.kept _ harray).names (by omega)
  have hend : (c.machine.argument 0).offset + P.fieldCount (c.machine.argument 0).tag ≤
    c.machine.image.heap.top := hs.heap.end_le hobject
  have hroom := hs.heap.room
  -- what has been written is held afterwards
  have hv : v.Sound P.fieldCount cs := by
    have hword : m'.Keeps (m'.image.heap.front.cell ((c.machine.argument 0).offset + i)) :=
      .word (by rw [hheap]; show _ < c.machine.image.heap.top; omega)
    rw [hheap, Heap.write, Cells.cell_setIfInBounds, if_pos ⟨rfl, by omega⟩] at hword
    exact hs.knows (hdraws v hword)
  have hplain : c.reifies P natives = false := by
    rw [reifies, hset]
    rfl
  have hsame : ∀ u, c.moved? P natives m' u = some u := fun u => by
    rw [moved?_of_plain hplain, Machine.moved?, hheap]
    exact Heap.moved?_of_eq rfl u
  refine ⟨cs, ⟨hheap ▸ hs.heap.write _ hv, fun u hu => hs.knows (hdraws u hu)⟩,
    fun u w hw => ?_, fun u w hu hw => ?_, fun u w hu hw hother j hj => ?_⟩ <;>
    rw [hsame] at hw <;> cases hw
  · rfl
  · exact hu
  · have hne : u ≠ c.machine.argument 0 := by
      rintro rfl
      simp [writes, hset] at hother
    rw [hsame, hheap, Heap.write, Cells.cell_setIfInBounds]
    have hapart : ¬ (c.machine.argument 0).offset + i = u.offset + j := by
      rcases Layout.eq_or_apart (hu.names (by omega)) hobject with heq | hlt | hlt
      · exact absurd (Value.eq_of_object_eq heq) hne
      · have hlt : u.offset + P.fieldCount u.tag ≤ (c.machine.argument 0).offset := hlt
        omega
      · have hlt : (c.machine.argument 0).offset + P.fieldCount (c.machine.argument 0).tag ≤
          u.offset := hlt
        omega
    rw [if_neg fun h => hapart h.1]

/-- Making a continuation carries all objects along. -/
lemma carries_reify (hP : P.Linked) (hint : P.fieldCount P.intClass = 0)
    (hs : c.machine.Sound P cs) (hsettled : c.machine.Settled) {m₁ m₂ m'' : Machine} {s b : Nat}
    {vs : List Value} {array k : Value}
    (hreifies : c.reifies P natives = true)
    (hreified : Machine.Reified P (c.machine.argument 0)
      (c.machine.readied (.native "core:reify_handler_context" c.machine.thread.value))
      m₁ m₂ m'' s b vs array k) (hleft : m' = { m'' with transfer := none })
    (hbody : c.machine.Keeps (c.machine.argument 0)) (hvs : ∀ v ∈ vs, c.machine.Keeps v) :
    ∃ cs', m'.Sound P cs' ∧ c.Carries P natives m' cs cs' := by
  have hreadied : (c.machine.readied
      (.native "core:reify_handler_context" c.machine.thread.value)).Sound P cs :=
    hs.draws rfl fun v hv => .inr (hv.of_eq rfl rfl rfl rfl (Nat.le_refl _))
  obtain ⟨cs', hs₂, hcarries, hk, -, -⟩ := hreified.carries hP
    (hreadied.capturing (hs.kept _ hbody)) fun v hv => hs.kept v (hvs v hv)
  obtain ⟨-, hmoves⟩ := hreified.moves hs.heap.room
  obtain ⟨hheap, hglobals⟩ := hreified.image
  obtain ⟨depth, -, -, hregisters⟩ := hreified.record
  obtain ⟨hsynthetic, hhandling⟩ := Machine.shield_eq_ok.mp hreified.shield
  have hs' := Context.synthetic_spec hsynthetic
  have hb' := Context.handling_spec hhandling
  have hsize := hreified.size₂
  have hroom := hreified.room
  have hlive : b ≤ m₂.thread.liveEnd := by
    rw [hmoves.liveEnd]
    have := hsettled.context_le hs'.1 hs'.2.1
    show b ≤ c.machine.thread.liveEnd
    omega
  subst hleft
  refine ⟨cs', ⟨hheap ▸ hs₂.heap, fun v hv => ?_⟩, .of_heap ?_ (hheap ▸ hcarries)⟩
  · cases hv with
    | value =>
        rw [hreified.value]
        exact hs₂.kept _ .value
    | @register i hi =>
        have hi : i < b + 3 := by
          rw [Thread.liveEnd] at hi
          dsimp only at hi
          rwa [hreified.frame, hreified.frameEnd] at hi
        dsimp only
        rw [hregisters, Cells.cell_setIfInBounds]
        split
        · exact hk
        · rw [Cells.cell_setIfInBounds]
          split
          · exact .inline hP.int_ne hint
          · rw [Cells.cell_setIfInBounds]
            split
            · exact .inline hP.int_ne hint
            · -- the registers of the frame exist
              rename_i hk hpos hdepth
              simp only [Array.size_setIfInBounds, hsize] at hk hpos hdepth
              rw [recordSize] at hk hroom
              exact hs₂.kept _ (.register (by omega))
    | global hv => exact hs₂.kept _ (.global (hglobals ▸ hv))
    | word hi =>
        dsimp only at hi ⊢
        rw [hheap] at hi ⊢
        exact hs₂.kept _ (.word hi)
  · rw [moved?, hreifies]
    rfl

/-- **Rounds keep machines sound**, and carry along what is not written. -/
theorem carries (hP : P.Linked) (hscalars : P.InlineScalars)
    (hcore : ∀ (index : Nat) x, natives.entries[index]? = some x → x ∈ coreNatives)
    (hs : c.machine.Sound P cs) (hsettled : c.machine.Settled) (hframe : c.InFrame P natives)
    {call : Option MethodId} (hadvance : c.advance P natives = .ok call m') :
    ∃ cs', m'.Sound P cs' ∧ c.Carries P natives m' cs cs' := by
  have hstep := heapStep (T := True) hcore (fun _ => ⟨hP.plain hscalars, hsettled, hframe⟩) hadvance
  cases hstep with
  | quiet plain heap size draws =>
      refine ⟨cs, hs.draws heap (draws trivial), .of_heap (moved?_of_plain plain m') ?_⟩
      show Heap.Carries _ (c.machine.image.heap.moved? P.fieldCount m'.image.heap) cs cs _ _
      rw [heap]
      exact .refl _ cs _
  | @write i v native set index heap size draws =>
      obtain ⟨hdraws, harray⟩ := draws trivial
      exact carries_write hs set index heap hdraws harray
  | create plain start made heap size draws =>
      obtain ⟨hdraws, hfields, hcls, hkeeps⟩ := draws trivial
      obtain ⟨cs', hs', hcarries, hx, -⟩ := (hs.draws start hdraws).alloc hP.empty
        (fun v hv => hs.kept v (hfields v hv)) hcls made
      refine ⟨cs', ⟨heap ▸ hs'.heap, fun v hv => ?_⟩, .of_heap (moved?_of_plain plain m') ?_⟩
      · rcases hkeeps v hv with rfl | hv
        · exact hx
        · exact hs'.kept v hv
      · show Heap.Carries _ (c.machine.image.heap.moved? P.fieldCount m'.image.heap) cs cs' _ _
        rw [heap, ← start]
        exact hcarries
  | @reify m₁ m₂ m'' s b vs array k plain reified left draws =>
      obtain ⟨hbody, hvs⟩ := draws trivial
      exact carries_reify hP hscalars.int hs hsettled plain reified left hbody hvs

end Config

/-- In every configuration that a run comes through, the machine is sound, and its frame and
contexts are in the registers in use, if no round names a register past those. -/
lemma Trail.sound {P : Program} (hP : P.Plain) {options : Options}
    (hwords : options.heapWords ≤ 2 ^ 32) {natives : Natives} {m₀ : Machine}
    (hstart : Starts P options natives m₀) {past : List Config} {c : Config}
    (ht : Trail P natives m₀ past c) (hpast : ∀ c' ∈ past, c'.InFrame P natives) :
    c.machine.Settled ∧ ∃ cs, c.machine.Sound P cs := by
  obtain ⟨-, w, k, -, hk, h⟩ := ht.inStep hP hwords hstart hpast
  have hsound := h.image₁.heap.sound
  have hframeEnd : c.machine.thread.frameEnd = k.frameEnd := congrArg Control.frameEnd h.control₁
  refine ⟨⟨hframeEnd ▸ hk.frameEnd, ?_, h.liveEnd₁ ▸ h.size₁, hsound.room⟩, w.classes₁, hsound,
    fun v hv => h.sound_of_keeps hv⟩
  rw [h.context₁, h.liveEnd₁]
  exact hk.context

end EffectMachine
