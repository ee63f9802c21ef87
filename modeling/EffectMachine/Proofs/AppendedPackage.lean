/-
The code of an appended package.

A package is appended with its code relocated: each relocation of its table, in turn, replaces four
bytes of the code by a linked number. Windows may overlap, and then the last one wins.

* `Relocation.Covers`: the four bytes that a relocation replaces;
* `Word.byteOf`: the bytes of a whole number, lowest first;
* `Linker.number?`: the number that a relocation stands for when its package is appended, said from
  what has been linked before;
* `Linker.methodId?_internMethods`: the methods of a package are found by their names;
* `isGreatest_ownGlobalCount`: how many globals a package uses;
* `Linker.append_patches_windows`: **appending a package replaces exactly the windows of its
  relocations**, adds its parts behind what has been linked, and leaves that as it is.
-/
import EffectMachine.Proofs.LinkedCode
import Mathlib.Order.Bounds.Basic

namespace EffectMachine

/-! ### Bytes of numbers -/

/-- Byte `k` of a whole number, the lowest one being the first. -/
def Word.byteOf (v : Int) (k : Nat) : UInt8 := UInt8.ofNat (v / 256 ^ k % 256).toNat

/-- A word that holds a number, but for multiples of `2 ^ 32`, has its lowest four bytes. -/
lemma Word.getElem?_bytes {w : UInt32} {v : Int} (h : (w.toNat : Int) = v % 2 ^ 32) {k : Nat}
    (hk : k < 4) : (bytes w)[k]? = some (byteOf v k) := by
  have hbyte : ∀ {b : UInt8}, (b.toNat : Int) = v / 256 ^ k % 256 → b = byteOf v k := by
    intro b hb
    rw [byteOf, ← hb, Int.toNat_natCast, UInt8.ofNat_toNat]
  have hcases : k = 0 ∨ k = 1 ∨ k = 2 ∨ k = 3 := by omega
  rcases hcases with rfl | rfl | rfl | rfl <;> refine congrArg some (hbyte ?_) <;>
    simp [Nat.shiftRight_eq_div_pow] <;> omega

lemma toNat_toUInt32_add (id : Int32) (base : Nat) :
    ((id + Int32.ofNat base).toUInt32.toNat : Int) = (id.toInt + base) % 2 ^ 32 := by
  have hid := toNat_toUInt32 id
  rw [Int32.toUInt32_add, Int32.toUInt32_ofNat', UInt32.toNat_add, UInt32.toNat_ofNat']
  omega

lemma toNat_toUInt32_ofNat (n : Nat) :
    ((Int32.ofNat n).toUInt32.toNat : Int) = (n : Int) % 2 ^ 32 := by
  rw [Int32.toUInt32_ofNat', UInt32.toNat_ofNat']
  omega

/-! ### Windows -/

/-- The byte is one of the four that a relocation replaces. -/
def Relocation.Covers (r : Relocation) (j : Nat) : Prop := r.pos.toNat ≤ j ∧ j < r.pos.toNat + 4

section Windows

variable {b : Bases} {p : Package} {code code' : Code} {j : Nat}

lemma getElem?_relocate_of_not_covers {rs : List Relocation}
    (h : relocate b p rs code = .ok code') (hj : ∀ r ∈ rs, ¬r.Covers j) : code'[j]? = code[j]? := by
  induction rs generalizing code with
  | nil =>
      cases h
      rfl
  | cons r rs ih =>
      obtain ⟨n, code₁, -, hpatch, hrest⟩ := relocate_cons h
      rw [List.forall_mem_cons, Relocation.Covers] at hj
      rw [ih hrest hj.2, Word.getElem?_patch?_of_apart hpatch (by omega)]

/-- A byte is what the last relocation that covers it has put there. -/
lemma getElem?_relocate_of_covers {front back : List Relocation} {r : Relocation}
    (h : relocate b p (front ++ r :: back) code = .ok code') (hr : r.Covers j)
    (hback : ∀ r' ∈ back, ¬r'.Covers j) :
    ∃ n, b.resolve p r = .ok n ∧ code'[j]? = (Word.bytes n.toUInt32)[j - r.pos.toNat]? := by
  induction front generalizing code with
  | nil =>
      obtain ⟨n, code₁, hn, hpatch, hrest⟩ := relocate_cons h
      obtain ⟨hle, hlt⟩ := hr
      have hbyte : code₁[r.pos.toNat + (j - r.pos.toNat)]? =
          (Word.bytes n.toUInt32)[j - r.pos.toNat]? :=
        (Word.stands_of_patch? hpatch).getElem? (by rw [Word.length_bytes]; omega)
      rw [Nat.add_sub_cancel' hle] at hbyte
      exact ⟨n, hn, by rw [getElem?_relocate_of_not_covers hrest hback, hbyte]⟩
  | cons r' front ih =>
      obtain ⟨-, code₁, -, -, hrest⟩ := relocate_cons h
      exact ih hrest

end Windows

/-! ### Globals -/

/-- The numbers that are one more than that of a global to which relocations refer. -/
def globalEnds (rs : List Relocation) : Set Int :=
  {n | ∃ r ∈ rs, r.kind = .global ∧ r.id.toInt + 1 = n}

lemma mem_globalEnds_cons {r : Relocation} {rs : List Relocation} {n : Int} :
    n ∈ globalEnds (r :: rs) ↔ (r.kind = .global ∧ r.id.toInt + 1 = n) ∨ n ∈ globalEnds rs := by
  simp [globalEnds]

/-- Along the table, the count is the greatest of the number so far and those ahead. -/
lemma isGreatest_foldl_globalEnds (rs : List Relocation) (n : Nat) :
    IsGreatest (insert (n : Int) (globalEnds rs))
      (rs.foldl (fun n r => if r.kind = .global then max n (r.id.toInt + 1).toNat else n) n :
        Nat) := by
  induction rs generalizing n with
  | nil => exact ⟨.inl rfl, by simp [upperBounds, globalEnds]⟩
  | cons r rs ih =>
      rw [List.foldl_cons]
      by_cases hkind : r.kind = .global
      · rw [if_pos hkind]
        obtain ⟨hmem, hupper⟩ := ih (max n (r.id.toInt + 1).toNat)
        generalize rs.foldl _ _ = count at hmem hupper ⊢
        have hmax := hupper (Set.mem_insert _ _)
        refine ⟨?_, ?_⟩
        · rcases hmem with hmem | hmem
          · rw [Set.mem_insert_iff, mem_globalEnds_cons]
            by_cases hle : r.id.toInt + 1 ≤ n
            · exact .inl (by omega)
            · exact .inr (.inl ⟨hkind, by omega⟩)
          · exact .inr (mem_globalEnds_cons.mpr (.inr hmem))
        · rintro k (rfl | hk)
          · omega
          · rcases mem_globalEnds_cons.mp hk with ⟨-, rfl⟩ | hk
            · omega
            · exact hupper (.inr hk)
      · have hsame : globalEnds (r :: rs) = globalEnds rs := by
          ext k
          rw [mem_globalEnds_cons]
          exact or_iff_right fun hk => hkind hk.1
        rw [if_neg hkind, hsame]
        exact ih n

/-- **A package uses as many globals as the highest number of one needs**, and none if all are
negative. -/
lemma isGreatest_ownGlobalCount (rs : List Relocation) :
    IsGreatest (insert 0 (globalEnds rs)) (ownGlobalCount rs : Int) :=
  isGreatest_foldl_globalEnds rs 0

namespace Linker

variable {l l' : Linker} {p : Package} {name : String} {m : MethodId}

/-! ### Methods -/

lemma methodId?_eq_findIdx? (l : Linker) (name : String) :
    l.methodId? name =
      (l.methodNames.findIdx? (· = name)).map fun i => (⟨UInt32.ofNat i⟩ : MethodId) := by
  obtain ⟨classes, ⟨methods⟩⟩ := l
  rw [methodId?, methodNames, List.findIdx?_map, List.findIdx?_toArray]
  rfl

lemma methodId?_of_prefix (h : l.methodNames <+: l'.methodNames) (hm : l.methodId? name = some m) :
    l'.methodId? name = some m := by
  obtain ⟨rest, hrest⟩ := h
  rw [methodId?_eq_findIdx?] at hm
  obtain ⟨i, hi, rfl⟩ := Option.map_eq_some_iff.mp hm
  rw [methodId?_eq_findIdx?, ← hrest, List.findIdx?_append, hi]
  rfl

lemma methodId?_internMethod (name : String) (l : Linker) :
    (internMethod name l).2.methodId? name = some (internMethod name l).1 := by
  rw [internMethod]
  cases hfound : l.methodId? name with
  | some m => exact hfound
  | none =>
      have hnames : methodNames { l with methods := l.methods.push { name } } =
          l.methodNames ++ [name] := by simp [methodNames]
      have hnone : l.methodNames.findIdx? (· = name) = none := by
        rwa [methodId?_eq_findIdx?, Option.map_eq_none_iff] at hfound
      rw [methodId?_eq_findIdx?, hnames, List.findIdx?_append, hnone]
      simp [methodNames]

lemma methodId?_internMethods (names : List String) (l : Linker) :
    names.map (internMethods names l).2.methodId? = (internMethods names l).1.map some := by
  induction names generalizing l with
  | nil => rfl
  | cons name names ih =>
      have hextends := (internMethods_spec names (internMethod name l).2).1
      rw [internMethods]
      dsimp only
      rw [List.map_cons, List.map_cons, ih,
        methodId?_of_prefix hextends.methodNames_prefix (methodId?_internMethod name l)]

lemma methodId?_of_append {slot i : Nat} (h : l.append p slot = .ok l')
    (hm : (l.bases p slot).methods[i]? = some m) :
    ∃ decl, p.methods[i]? = some decl ∧ l'.methodId? decl.name = some m := by
  have hnames := congrArg (·[i]?) (methodId?_internMethods p.methodNames l)
  rw [bases, List.getElem?_toArray] at hm
  rw [List.getElem?_map, List.getElem?_map, hm, Package.methodNames, List.getElem?_map,
    Array.getElem?_toList] at hnames
  cases hdecl : p.methods[i]? with
  | none =>
      rw [hdecl] at hnames
      cases hnames
  | some decl =>
      rw [hdecl] at hnames
      refine ⟨decl, rfl, ?_⟩
      rw [methodId?_eq_findIdx?, methodNames_of_append h, ← methodId?_eq_findIdx?]
      exact Option.some.inj hnames

/-! ### Linked numbers -/

/-- The number that a relocation stands for when its package is appended, `slot` being the global of
the package's object. Classes, code and globals are counted from what was linked before, imports
are the globals of other packages, and methods are found by their names. -/
def number? (before after : Linker) (p : Package) (slot : Nat) (r : Relocation) : Option Int :=
  match r.kind with
  | .cls => some (r.id.toInt + before.classes.size)
  | .code => some (r.id.toInt + before.code.size)
  | .global => some (r.id.toInt + slot + 1)
  | .imported => ((indexOf? r.id).bind (p.imports[·]?)).bind fun name =>
      if name = Package.self then some slot else (before.linked? name).map (·.global)
  | .method => ((indexOf? r.id).bind (p.methods[·]?)).bind fun decl =>
      (after.methodId? decl.name).map (·.index.toNat)

/-- A relocation is resolved to the number that it stands for, but for multiples of `2 ^ 32`. -/
lemma number?_of_resolve {slot : Nat} {r : Relocation} {n : Int32} (h : l.append p slot = .ok l')
    (hslot : l.globalCount = slot + 1) (hr : (l.bases p slot).resolve p r = .ok n) :
    ∃ v, number? l l' p slot r = some v ∧ (n.toUInt32.toNat : Int) = v % 2 ^ 32 := by
  obtain ⟨fresh, hinterned, -⟩ := (internMethods_spec p.methodNames l).1.exists_fresh
  have hclasses : (l.bases p slot).classes = l.classes.size := by
    rw [bases, interned, hinterned]
  have hcode : (l.bases p slot).code = l.code.size := by
    rw [bases, interned, hinterned]
  have hglobals : (l.bases p slot).globals = slot + 1 := by
    rw [bases, interned, hinterned]
    exact hslot
  rw [Bases.resolve] at hr
  rw [number?]
  cases hkind : r.kind with
  | cls =>
      rw [hkind] at hr
      dsimp only at hr
      split at hr
      · split at hr
        · cases hr
          exact ⟨_, rfl, by rw [toNat_toUInt32_add, hclasses]⟩
        · cases hr
      · cases hr
  | code =>
      rw [hkind] at hr
      cases hr
      exact ⟨_, rfl, by rw [toNat_toUInt32_add, hcode]⟩
  | global =>
      rw [hkind] at hr
      cases hr
      refine ⟨_, rfl, ?_⟩
      rw [toNat_toUInt32_add, hglobals]
      omega
  | imported =>
      rw [hkind] at hr
      dsimp only at hr ⊢
      split at hr
      · cases hr
      · rename_i name hname
        rw [hname, Option.bind_some]
        split at hr
        · rename_i hself
          cases hr
          exact ⟨slot, if_pos hself, toNat_toUInt32_ofNat _⟩
        · rename_i hself
          split at hr
          · rename_i global hglobal
            cases hr
            have hlinked : (l.linked? name).map (·.global) = some global := by
              rw [← linked?_interned p l name]
              exact hglobal
            obtain ⟨q, hq, rfl⟩ := Option.map_eq_some_iff.mp hlinked
            refine ⟨q.global, ?_, toNat_toUInt32_ofNat _⟩
            rw [if_neg hself, hq]
            rfl
          · cases hr
  | method =>
      rw [hkind] at hr
      dsimp only at hr ⊢
      split at hr
      · rename_i m hm
        cases hr
        obtain ⟨i, hi, hm⟩ := Option.bind_eq_some_iff.mp hm
        obtain ⟨decl, hdecl, hfound⟩ := methodId?_of_append h hm
        refine ⟨m.index.toNat, ?_, ?_⟩
        · rw [hi, Option.bind_some, hdecl, Option.bind_some, hfound]
          rfl
        · have hlt := m.index.toNat_lt
          rw [UInt32.toUInt32_toInt32]
          omega
      · cases hr

/-! ### Appended packages -/

/-- The code has been relocated: outside the windows of the relocations it is what it was, and a
byte inside is that of the last relocation that covers it. -/
structure Relocates (l l' : Linker) (p : Package) (slot : Nat) (code : Code) : Prop where
  size : code.size = p.code.size
  outside : ∀ j, (∀ r ∈ p.relocations, ¬r.Covers j) → code[j]? = p.code[j]?
  inside : ∀ front r back, p.relocations.toList = front ++ r :: back → ∀ j, r.Covers j →
    (∀ r' ∈ back, ¬r'.Covers j) → ∃ v, number? l l' p slot r = some v ∧
      code[j]? = some (Word.byteOf v (j - r.pos.toNat))

/-- The packages and the methods that have been linked are still there, methods under their
identifiers and with their implementations. -/
structure Keeps (l l' : Linker) : Prop where
  completed : l'.completed = l.completed
  methods : ∀ name m, l.methodId? name = some m → l'.methodId? name = some m
  rows : ∀ (k : Nat) row, l.methods[k]? = some row → ∃ row', l'.methods[k]? = some row' ∧
    row'.name = row.name ∧ row.implementations.toList <+: row'.implementations.toList

lemma relocates_of_append {slot : Nat} (h : l.append p slot = .ok l')
    (hslot : l.globalCount = slot + 1) :
    ∃ code, l'.code = l.code ++ code ∧ Relocates l l' p slot code := by
  obtain ⟨code, hrelocate, hcode⟩ := relocate_of_append h
  refine ⟨code, hcode, size_of_relocate hrelocate, fun j hj => ?_, ?_⟩
  · exact getElem?_relocate_of_not_covers hrelocate fun r hr => hj r (Array.mem_toList_iff.mp hr)
  · intro front r back hsplit j hr hback
    rw [hsplit] at hrelocate
    obtain ⟨n, hn, hbyte⟩ := getElem?_relocate_of_covers hrelocate hr hback
    obtain ⟨v, hv, hword⟩ := number?_of_resolve h hslot hn
    obtain ⟨hle, hlt⟩ := hr
    exact ⟨v, hv, by rw [hbyte, Word.getElem?_bytes hword (by omega)]⟩

lemma keeps_of_append {slot : Nat} (h : l.append p slot = .ok l') : l.Keeps l' := by
  have hextends := (internMethods_spec p.methodNames l).1
  have hnames := methodNames_of_append h
  obtain ⟨rows, code, rfl, -, -, -, hrows⟩ := append_eq_ok h
  refine ⟨rfl, fun name m hm => ?_, fun k row hrow => ?_⟩
  · exact methodId?_of_prefix (hnames ▸ hextends.methodNames_prefix) hm
  · obtain ⟨fresh, hinterned, -⟩ := hextends.exists_fresh
    have hkept : (l.interned p).methods[k]? = some row := by
      rw [interned, hinterned]
      exact Array.getElem?_append_left (Array.getElem?_eq_some_iff.mp hrow).1 ▸ hrow
    obtain ⟨row', hrow', hname, himpls⟩ := hrows k row hkept
    exact ⟨row', hrow', hname, _, himpls.symm⟩

/-- **Appending a package replaces exactly the windows of its relocations.** Its code comes to lie
behind all other code, with each byte that a relocation covers replaced by one of a linked number.
Behind the global of its object the package gets as many globals as the highest number of one that
it refers to needs. Its classes and natives are added as they are, and what has been linked before
stays. -/
theorem append_patches_windows {slot : Nat} (h : l.append p slot = .ok l')
    (hslot : l.globalCount = slot + 1) :
    (∃ code, l'.code = l.code ++ code ∧ Relocates l l' p slot code) ∧
    IsGreatest (insert 0 (globalEnds p.relocations.toList)) (l'.globalCount - (slot + 1)) ∧
    l'.classes = l.classes ++ p.classes ∧ l'.externals = l.externals ++ p.externals ∧
    l.Keeps l' := by
  refine ⟨relocates_of_append h hslot, ?_, ?_, ?_, keeps_of_append h⟩
  all_goals obtain ⟨rows, code, rfl, -⟩ := append_eq_ok h
  · have hcount : ((l.globalCount + ownGlobalCount p.relocations.toList : Nat) : Int) - (slot + 1) =
        ownGlobalCount p.relocations.toList := by omega
    dsimp only
    rw [hcount]
    exact isGreatest_ownGlobalCount _
  · rfl
  · rfl

/-- A package that refers to a class and a method of its own in words that overlap, to its fifth
global and to itself. -/
def overlapping : Package where
  imports := #[Package.self]
  classes := #[⟨"Point", .user, 2⟩]
  methods := #[⟨"show"⟩]
  relocations := #[⟨.cls, 0, 0⟩, ⟨.global, 4, 8⟩, ⟨.method, 0, 2⟩, ⟨.imported, 0, 12⟩]
  code := #[9, 9, 9, 9, 9, 9, 9, 9, 9, 9, 9, 9, 9, 9, 9, 9, 9]

/-- Appended to an empty program, the package gets six globals, and of its first words the one that
is replaced later is whole. -/
theorem append_patches_windows_overlapping :
    ∃ l', (fresh {}).started.append overlapping 0 = .ok l' ∧ (fresh {}).started.globalCount = 0 + 1 ∧
      l'.globalCount = 6 ∧
      l'.code = (fresh {}).started.code ++
        (#[4, 0, 1, 0, 0, 0, 9, 9, 5, 0, 0, 0, 0, 0, 0, 0, 9] : Code) ∧
      (∃ code, l'.code = (fresh {}).started.code ++ code ∧
        Relocates (fresh {}).started l' overlapping 0 code) ∧
      IsGreatest (insert 0 (globalEnds overlapping.relocations.toList)) (l'.globalCount - 1) ∧
      (fresh {}).started.Keeps l' := by
  have hrun : ((fresh {}).started.append overlapping 0).toOption.any (fun l' =>
      decide (l'.globalCount = 6 ∧ l'.code = (fresh {}).started.code ++
        (#[4, 0, 1, 0, 0, 0, 9, 9, 5, 0, 0, 0, 0, 0, 0, 0, 9] : Code))) = true := by
    decide +kernel
  cases happend : (fresh {}).started.append overlapping 0 with
  | error e =>
      rw [happend] at hrun
      cases hrun
  | ok l' =>
      rw [happend] at hrun
      obtain ⟨hcount, hcode⟩ := of_decide_eq_true hrun
      obtain ⟨hrelocates, hgreatest, -, -, hkeeps⟩ := append_patches_windows happend rfl
      exact ⟨l', rfl, rfl, hcount, hcode, hrelocates, hgreatest, hkeeps⟩

end Linker

end EffectMachine
