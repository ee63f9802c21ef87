/-
Packages and programs are read back from their JSON values.

The members of an object may stand in any order, and a package may leave out lists that are empty.
Reading gives the same package or program for all these values.

* `Json.Rearranged`: the same value with members in another order, at any depth;
* `Json.Trimmed`: members of which some empty lists have been left out;
* `Json.Reads`: a decoder reads a value, however it is rearranged, as a piece of data. One lemma for
  each decoder says that it reads what the encoder writes;
* `Package.ofJson?_of_trimmed`, `Program.reads`: **packages and programs are read back**, and
  `Package.proper_of_mem_members`, `Program.proper_toJson`: they can be written.
-/
import EffectMachine.ObjectFormat
import EffectMachine.Proofs.JsonText
import Mathlib.Data.List.Forall2
import Mathlib.Data.List.Nodup
import Mathlib.Data.Option.Basic
import Mathlib.Order.Basic

namespace EffectMachine

namespace Json

/-! ### Members in another order -/

/-- The same value with the members of its objects in another order, at any depth. -/
inductive Rearranged : Json → Json → Prop
  | refl (j : Json) : Rearranged j j
  | array {items items' : List Json} : List.Forall₂ Rearranged items items' →
      Rearranged (array items) (array items')
  | object {members middle members' : List (Text × Json)} :
      members.map Prod.fst = middle.map Prod.fst →
      List.Forall₂ Rearranged (members.map Prod.snd) (middle.map Prod.snd) →
      middle.Perm members' → Rearranged (object members) (object members')

/-- The same key, with a rearranged value. -/
def SameMember (m m' : Text × Json) : Prop := m.1 = m'.1 ∧ Rearranged m.2 m'.2

lemma forall₂_sameMember {members middle : List (Text × Json)}
    (hkeys : members.map Prod.fst = middle.map Prod.fst)
    (hvalues : List.Forall₂ Rearranged (members.map Prod.snd) (middle.map Prod.snd)) :
    List.Forall₂ SameMember members middle := by
  induction members generalizing middle with
  | nil =>
      cases middle with
      | nil => exact .nil
      | cons m middle => cases hkeys
  | cons m members ih =>
      cases middle with
      | nil => cases hkeys
      | cons m' middle =>
          simp only [List.map_cons, List.cons.injEq, List.forall₂_cons] at hkeys hvalues
          exact .cons ⟨hkeys.1, hvalues.1⟩ (ih hkeys.2 hvalues.2)

namespace Rearranged

lemma of_items {items : List Json} {j : Json} (h : Rearranged (.array items) j) :
    ∃ items', j = .array items' ∧ List.Forall₂ Rearranged items items' := by
  cases h with
  | refl => exact ⟨items, rfl, List.forall₂_same.mpr fun j _ => .refl j⟩
  | array hitems => exact ⟨_, rfl, hitems⟩

lemma of_members {members : List (Text × Json)} {j : Json} (h : Rearranged (.object members) j) :
    ∃ middle members', j = .object members' ∧ List.Forall₂ SameMember members middle ∧
      middle.Perm members' := by
  cases h with
  | refl =>
      exact ⟨members, members, rfl, List.forall₂_same.mpr fun m _ => ⟨rfl, .refl m.2⟩, .refl _⟩
  | object hkeys hvalues hperm => exact ⟨_, _, rfl, forall₂_sameMember hkeys hvalues, hperm⟩

end Rearranged

lemma exists_of_mem_forall₂ {α β : Type} {R : α → β → Prop} {xs : List α} {ys : List β}
    (h : List.Forall₂ R xs ys) {y : β} (hy : y ∈ ys) : ∃ x ∈ xs, R x y := by
  induction h with
  | nil => cases hy
  | cons hxy _ ih =>
      rcases List.mem_cons.mp hy with rfl | hy
      · exact ⟨_, List.mem_cons_self, hxy⟩
      · obtain ⟨x, hx, hxy⟩ := ih hy
        exact ⟨x, List.mem_cons_of_mem _ hx, hxy⟩

/-- What has been rearranged can be written if it could before. -/
lemma Proper.rearranged {j j' : Json} (h : j.Proper) (hj : Rearranged j j') : j'.Proper := by
  induction h generalizing j' with
  | null => cases hj; exact .null
  | bool b => cases hj; exact .bool b
  | integer n => cases hj; exact .integer n
  | string s => cases hj; exact .string s
  | array _ ih =>
      obtain ⟨items', rfl, hitems⟩ := hj.of_items
      refine .array fun x hx => ?_
      obtain ⟨y, hy, hyx⟩ := exists_of_mem_forall₂ hitems hx
      exact ih y hy hyx
  | object hkeys _ ih =>
      obtain ⟨middle, members', rfl, hmembers, hperm⟩ := hj.of_members
      refine .object (fun m hm => ?_) fun m hm => ?_ <;>
        obtain ⟨m', hm', hkey, hvalue⟩ := exists_of_mem_forall₂ hmembers (hperm.mem_iff.mpr hm)
      · rw [← hkey]
        exact hkeys m' hm'
      · exact ih m' hm' hvalue

@[simp] lemma proper_ofString (s : String) : (ofString s).Proper := .string s

@[simp] lemma proper_integer (n : Int) : (integer n).Proper := .integer n

@[simp] lemma proper_ofNat (n : Nat) : (ofNat n).Proper := .integer n

lemma proper_ofMembers {members : List (String × Json)} (h : ∀ m ∈ members, m.2.Proper) :
    (ofMembers members).Proper := by
  refine .object (fun m hm => ?_) fun m hm => ?_ <;> obtain ⟨m', hm', rfl⟩ := List.mem_map.mp hm
  · rfl
  · exact h m' hm'

lemma proper_ofArray {α : Type} {toJson : α → Json} (h : ∀ a, (toJson a).Proper) (items : Array α) :
    (ofArray toJson items).Proper := by
  refine .array fun j hj => ?_
  obtain ⟨a, -, rfl⟩ := List.mem_map.mp hj
  exact h a

/-! ### Fields of a record -/

/-- A member of the given key. -/
def hasKey (name : String) (m : Text × Json) : Bool := m.1 = some name

lemma hasKey_eq {m m' : Text × Json} (h : SameMember m m') (name : String) :
    hasKey name m = hasKey name m' := by
  rw [hasKey, hasKey, h.1]

/-- Of members that correspond, the first ones of a key do. -/
lemma find?_sameMember {members middle : List (Text × Json)}
    (h : List.Forall₂ SameMember members middle) (name : String) :
    Option.Rel Rearranged ((members.find? (hasKey name)).map Prod.snd)
      ((middle.find? (hasKey name)).map Prod.snd) := by
  induction h with
  | nil => exact .none
  | @cons m m' members middle hm _ ih =>
      have hkey := hasKey_eq hm name
      cases hname : hasKey name m' with
      | true =>
          rw [List.find?_cons_of_pos (hkey.trans hname), List.find?_cons_of_pos hname]
          exact .some hm.2
      | false =>
          rw [List.find?_cons_of_neg (by simp [hkey, hname]),
            List.find?_cons_of_neg (by simp [hname])]
          exact ih

/-- A key occurs as often among members that correspond. -/
lemma countP_sameMember {members middle : List (Text × Json)}
    (h : List.Forall₂ SameMember members middle) (name : String) :
    members.countP (hasKey name) = middle.countP (hasKey name) := by
  induction h with
  | nil => rfl
  | cons hm _ ih => rw [List.countP_cons, List.countP_cons, ih, hasKey_eq hm]

/-- If a key occurs once only, the order of members does not matter to it. -/
lemma find?_perm {middle members' : List (Text × Json)} (h : middle.Perm members')
    {name : String} (hcount : middle.countP (hasKey name) ≤ 1) :
    members'.find? (hasKey name) = middle.find? (hasKey name) := by
  have hfilter := h.filter (hasKey name)
  rw [List.countP_eq_length_filter] at hcount
  rw [← List.head?_filter, ← List.head?_filter]
  cases hmiddle : middle.filter (hasKey name) with
  | nil =>
      rw [hmiddle] at hfilter
      rw [List.nil_perm.mp hfilter]
  | cons m rest =>
      rw [hmiddle, List.length_cons] at hcount
      have hrest : rest = [] := List.length_eq_zero_iff.mp (by omega)
      rw [hmiddle, hrest] at hfilter
      rw [← List.singleton_perm.mp hfilter, hrest]

/-- Under distinct keys, a member is the first of its key. -/
lemma find?_key_eq_some {members : List (String × Json)} (hnodup : (members.map Prod.fst).Nodup)
    {name : String} {value : Json} (hm : (name, value) ∈ members) :
    members.find? (·.1 = name) = some (name, value) := by
  induction members with
  | nil => cases hm
  | cons first members ih =>
      rw [List.map_cons, List.nodup_cons] at hnodup
      rcases List.mem_cons.mp hm with rfl | hm
      · exact List.find?_cons_of_pos (decide_eq_true rfl)
      · have hne : first.1 ≠ name := fun h => hnodup.1 (List.mem_map.mpr ⟨_, hm, h.symm⟩)
        rw [List.find?_cons_of_neg (by simp [hne])]
        exact ih hnodup.2 hm

/-- **The fields of a record are found in any order.** -/
lemma exists_fields? {members : List (String × Json)} (hnodup : (members.map Prod.fst).Nodup)
    {j : Json} (h : Rearranged (ofMembers members) j) (names : List String) :
    ∃ field : String → Option Json, j.fields? names = some (names.map field) ∧
      (∀ name value, (name, value) ∈ members →
        ∃ value', field name = some value' ∧ Rearranged value value') ∧
      ∀ name ∉ members.map Prod.fst, field name = none := by
  obtain ⟨middle, members', rfl, hmembers, hperm⟩ := h.of_members
  have hcount : ∀ name, middle.countP (hasKey name) ≤ 1 := by
    intro name
    have hkeys : middle.countP (hasKey name) = (members.map Prod.fst).count name := by
      rw [← countP_sameMember hmembers, List.countP_map, List.count, List.countP_map]
      exact List.countP_congr fun m _ => by simp [hasKey]
    rw [hkeys]
    exact List.nodup_iff_count_le_one.mp hnodup name
  have hfind : ∀ name, Option.Rel Rearranged ((members.find? (·.1 = name)).map Prod.snd)
      ((members'.find? (hasKey name)).map Prod.snd) := by
    intro name
    rw [find?_perm hperm (hcount name)]
    simpa [List.find?_map, Function.comp_def, hasKey] using find?_sameMember hmembers name
  refine ⟨fun name => (members'.find? (hasKey name)).map Prod.snd, ?_, ?_, ?_⟩
  · have hsome : ∀ m ∈ members', m.1.isSome = true := by
      intro m hm
      obtain ⟨m', hm', hkey, -⟩ := exists_of_mem_forall₂ hmembers (hperm.mem_iff.mpr hm)
      obtain ⟨x, -, rfl⟩ := List.mem_map.mp hm'
      rw [← hkey]
      rfl
    have hall : (members'.all (·.1.isSome) &&
        names.all fun name => members'.countP (hasKey name) ≤ 1) = true := by
      simp only [Bool.and_eq_true, List.all_eq_true, decide_eq_true_eq]
      exact ⟨hsome, fun name _ => hperm.countP_eq (hasKey name) ▸ hcount name⟩
    exact if_pos hall
  · intro name value hm
    have hrel := hfind name
    rw [find?_key_eq_some hnodup hm, Option.map_some] at hrel
    cases hfound : (members'.find? (hasKey name)).map Prod.snd with
    | none => rw [hfound] at hrel; cases hrel
    | some value' =>
        rw [hfound] at hrel
        cases hrel with
        | some hvalue => exact ⟨value', hfound, hvalue⟩
  · intro name hname
    have hrel := hfind name
    have hnone : members.find? (·.1 = name) = none :=
      List.find?_eq_none.mpr fun m hm hm' =>
        hname (List.mem_map.mpr ⟨m, hm, of_decide_eq_true hm'⟩)
    rw [hnone, Option.map_none] at hrel
    cases hfound : (members'.find? (hasKey name)).map Prod.snd with
    | none => exact hfound
    | some value => rw [hfound] at hrel; cases hrel

/-- Members of which some have been left out, each with the empty list for its value. -/
def Trimmed (members kept : List (String × Json)) : Prop :=
  kept.Sublist members ∧ ∀ m ∈ members, m ∈ kept ∨ m.2 = array []

/-! ### Decoders -/

/-- The decoder reads the value, however it is rearranged, as the given data. -/
def Reads {α : Type} (read? : Json → Option α) (j : Json) (a : α) : Prop :=
  ∀ j', Rearranged j j' → read? j' = some a

namespace Reads

variable {α : Type} {read? : Json → Option α} {j : Json} {a : α}

/-- A field that is written is read. -/
lemma required (h : Reads read? j a) {field : Option Json}
    (hfield : ∃ j', field = some j' ∧ Rearranged j j') : Json.required read? field = some a := by
  obtain ⟨j', rfl, hj⟩ := hfield
  exact h j' hj

/-- A field that is written is read, also where it might have been left out. -/
lemma optional (h : Reads read? j a) (default : α) {field : Option Json}
    (hfield : ∃ j', field = some j' ∧ Rearranged j j') :
    Json.optional read? default field = some a := by
  obtain ⟨j', rfl, hj⟩ := hfield
  exact h j' hj

lemma map {β : Type} (h : Reads read? j a) (f : α → β) :
    Reads (fun j => (read? j).map f) j (f a) := by
  intro j' hj
  show (read? j').map f = some (f a)
  rw [h j' hj, Option.map_some]

lemma string (s : String) : Reads toString? (ofString s) s := by
  intro j' hj
  cases hj
  rfl

/-- A name that stands for an alternative is read as that alternative. -/
lemma variant {ofName? : String → Option α} {name : String} (h : ofName? name = some a) :
    Reads (variant? ofName?) (ofString name) a := by
  intro j' hj
  cases hj
  exact h

lemma int32 (n : Int32) : Reads toInt32? (.integer n.toInt) n := by
  intro j' hj
  cases hj
  have hbound : -2147483648 ≤ n.toInt ∧ n.toInt ≤ 2147483647 := by
    have hlow := n.le_toInt
    have hhigh := n.toInt_lt
    omega
  rw [toInt32?, if_pos hbound, Int32.ofInt_toInt]

lemma uint32 (n : UInt32) : Reads toUInt32? (.ofNat n.toNat) n := by
  intro j' hj
  cases hj
  have hbound : (0 : Int) ≤ n.toNat ∧ (n.toNat : Int) ≤ 4294967295 := by
    have := n.toNat_lt
    omega
  rw [ofNat, toUInt32?, if_pos hbound, Int.toNat_natCast, UInt32.ofNat_toNat]

lemma uint8 (n : UInt8) : Reads toUInt8? (.ofNat n.toNat) n := by
  intro j' hj
  cases hj
  have hbound : (0 : Int) ≤ n.toNat ∧ (n.toNat : Int) ≤ 255 := by
    have := n.toNat_lt
    omega
  rw [ofNat, toUInt8?, if_pos hbound, Int.toNat_natCast, UInt8.ofNat_toNat]

/-- A list is read item by item. -/
lemma array {toJson : α → Json} (h : ∀ a, Reads read? (toJson a) a) (items : Array α) :
    Reads (toArray? read?) (ofArray toJson items) items := by
  intro j' hj
  obtain ⟨items', rfl, hitems⟩ := hj.of_items
  have hread : ∀ (as : List α) (js : List Json), List.Forall₂ Rearranged (as.map toJson) js →
      js.mapM read? = some as := by
    intro as
    induction as with
    | nil =>
        intro js hjs
        cases hjs
        rfl
    | cons a as ih =>
        intro js hjs
        cases hjs with
        | cons hj hjs => simp [List.mapM_cons, h a _ hj, ih _ hjs]
  rw [toArray?, hread _ _ hitems, Option.map_some, Array.toArray_toList]

end Reads

end Json

open Json (Reads)

/-! ### Table entries -/

lemma ClassId.reads (c : ClassId) : Reads ofJson? c.toJson c := (Reads.int32 c.code).map ClassId.mk

@[simp] lemma ClassId.proper_toJson (c : ClassId) : c.toJson.Proper := .integer _

lemma MethodId.reads (m : MethodId) : Reads ofJson? m.toJson m :=
  (Reads.uint32 m.index).map MethodId.mk

@[simp] lemma MethodId.proper_toJson (m : MethodId) : m.toJson.Proper := .integer _

lemma ClassDecl.reads (c : ClassDecl) : Reads ofJson? c.toJson c := by
  intro j hj
  obtain ⟨field, hfields, hfield, -⟩ :=
    Json.exists_fields? (by simp) hj ["name", "kind", "field_count"]
  have hname := (Reads.string c.name).required (hfield "name" _ (by simp))
  have hkind := (Reads.variant c.kind.ofName?_name).optional .user (hfield "kind" _ (by simp))
  have hcount := (Reads.uint32 c.fieldCount).required (hfield "field_count" _ (by simp))
  simp [ofJson?, hfields, hname, hkind, hcount]

lemma ClassDecl.proper_toJson (c : ClassDecl) : c.toJson.Proper := Json.proper_ofMembers (by simp)

lemma MethodDecl.reads (m : MethodDecl) : Reads ofJson? m.toJson m := by
  intro j hj
  obtain ⟨field, hfields, hfield, -⟩ := Json.exists_fields? (by simp) hj ["name"]
  have hname := (Reads.string m.name).required (hfield "name" _ (by simp))
  simp [ofJson?, hfields, hname]

lemma MethodDecl.proper_toJson (m : MethodDecl) : m.toJson.Proper :=
  Json.proper_ofMembers (by simp)

lemma Method.reads (m : Method) : Reads ofJson? m.toJson m := by
  intro j hj
  obtain ⟨field, hfields, hfield, -⟩ := Json.exists_fields? (by simp) hj ["name", "offset"]
  have hname := (Reads.string m.name).required (hfield "name" _ (by simp))
  have hoffset := (Reads.int32 m.offset).required (hfield "offset" _ (by simp))
  simp [ofJson?, hfields, hname, hoffset]

lemma Method.proper_toJson (m : Method) : m.toJson.Proper := Json.proper_ofMembers (by simp)

lemma Implementation.reads (i : Implementation) : Reads ofJson? i.toJson i := by
  intro j hj
  obtain ⟨field, hfields, hfield, -⟩ :=
    Json.exists_fields? (by simp) hj ["class", "method", "kind", "entry_point"]
  have hcls := i.cls.reads.required (hfield "class" _ (by simp))
  have hmethod := i.method.reads.required (hfield "method" _ (by simp))
  have hkind := (Reads.variant i.kind.ofName?_name).required (hfield "kind" _ (by simp))
  have hentry := (Reads.uint32 i.entry).required (hfield "entry_point" _ (by simp))
  simp [ofJson?, hfields, hcls, hmethod, hkind, hentry]

lemma Implementation.proper_toJson (i : Implementation) : i.toJson.Proper :=
  Json.proper_ofMembers (by simp)

lemma Relocation.reads (r : Relocation) : Reads ofJson? r.toJson r := by
  intro j hj
  obtain ⟨field, hfields, hfield, -⟩ := Json.exists_fields? (by simp) hj ["kind", "id", "pos"]
  have hkind := (Reads.variant r.kind.ofName?_name).required (hfield "kind" _ (by simp))
  have hid := (Reads.int32 r.id).required (hfield "id" _ (by simp))
  have hpos := (Reads.uint32 r.pos).required (hfield "pos" _ (by simp))
  simp [ofJson?, hfields, hkind, hid, hpos]

lemma Relocation.proper_toJson (r : Relocation) : r.toJson.Proper :=
  Json.proper_ofMembers (by simp)

lemma Code.reads (code : Code) : Reads Code.ofJson? (Code.toJson code) code :=
  .array Reads.uint8 code

lemma Code.proper_toJson (code : Code) : (Code.toJson code).Proper :=
  Json.proper_ofArray (fun _ => Json.proper_ofNat _) code

lemma BuiltinTable.reads (t : BuiltinTable) : Reads ofJson? t.toJson t := by
  intro j hj
  have hentries : j.toArray? ClassId.ofJson? = some t.toList.toArray :=
    Reads.array ClassId.reads t.toList.toArray j (by simpa [Json.ofArray, toJson] using hj)
  rw [ofJson?, hentries]
  exact ofList?_toList t

lemma BuiltinTable.proper_toJson (t : BuiltinTable) : t.toJson.Proper :=
  Json.proper_ofArray ClassId.proper_toJson t.toList.toArray

/-! ### Packages -/

namespace Package

/-- The fields of a package in written order. -/
def members (p : Package) : List (String × Json) :=
  [("imports", .ofArray .ofString p.imports), ("external_methods", .ofArray .ofString p.externals),
    ("classes", .ofArray ClassDecl.toJson p.classes),
    ("methods", .ofArray MethodDecl.toJson p.methods),
    ("implementations", .ofArray Implementation.toJson p.implementations),
    ("relocations", .ofArray Relocation.toJson p.relocations), ("code", Code.toJson p.code)]

lemma proper_of_mem_members {p : Package} {m : String × Json} (hm : m ∈ p.members) :
    m.2.Proper := by
  simp only [members, List.mem_cons, List.not_mem_nil, or_false] at hm
  rcases hm with rfl | rfl | rfl | rfl | rfl | rfl | rfl
  · exact Json.proper_ofArray Json.proper_ofString _
  · exact Json.proper_ofArray Json.proper_ofString _
  · exact Json.proper_ofArray ClassDecl.proper_toJson _
  · exact Json.proper_ofArray MethodDecl.proper_toJson _
  · exact Json.proper_ofArray Implementation.proper_toJson _
  · exact Json.proper_ofArray Relocation.proper_toJson _
  · exact Code.proper_toJson _

lemma nodup_members (p : Package) : (p.members.map Prod.fst).Nodup := by
  simp [members]

/-- A list that may be left out where it is empty is read all the same. -/
lemma optional_of_trimmed {α : Type} {item? : Json → Option α} {toJson : α → Json}
    (hitem : ∀ a, Reads item? (toJson a) a) {items : Array α} {p : Package}
    {kept : List (String × Json)} (hkept : Json.Trimmed p.members kept) {key : String}
    (hmem : (key, Json.ofArray toJson items) ∈ p.members) {field : String → Option Json}
    (hfield : ∀ name value, (name, value) ∈ kept →
      ∃ value', field name = some value' ∧ Json.Rearranged value value')
    (hnone : ∀ name ∉ kept.map Prod.fst, field name = none) :
    Json.optional (·.toArray? item?) #[] (field key) = some items := by
  rcases hkept.2 _ hmem with hwritten | hempty
  · exact (Reads.array hitem items).optional #[] (hfield key _ hwritten)
  by_cases hkey : key ∈ kept.map Prod.fst
  · -- the kept member of this key is the member itself
    obtain ⟨⟨name, value⟩, hm, rfl⟩ := List.mem_map.mp hkey
    have hsame := Json.find?_key_eq_some p.nodup_members (hkept.1.subset hm)
    rw [Json.find?_key_eq_some p.nodup_members hmem] at hsame
    cases hsame
    exact (Reads.array hitem items).optional #[] (hfield _ _ hm)
  · have hitems : items = #[] := by
      have hmap : items.toList.map toJson = [] := Json.array.inj hempty
      exact Array.toList_eq_nil_iff.mp (List.map_eq_nil_iff.mp hmap)
    rw [hnone key hkey, hitems]
    rfl

/-- **A package is read from its fields, in any order and with empty lists left out.** -/
lemma ofJson?_of_trimmed {p : Package} {kept : List (String × Json)}
    (hkept : Json.Trimmed p.members kept) : Reads ofJson? (.ofMembers kept) p := by
  intro j hj
  have hnodup := p.nodup_members.sublist (hkept.1.map Prod.fst)
  obtain ⟨field, hfields, hfield, hnone⟩ := Json.exists_fields? hnodup hj
    ["imports", "external_methods", "classes", "methods", "implementations", "relocations", "code"]
  have himports : Json.optional namesOfJson? #[] (field "imports") = some p.imports :=
    optional_of_trimmed Reads.string hkept (by simp [members]) hfield hnone
  have hexternals : Json.optional namesOfJson? #[] (field "external_methods") = some p.externals :=
    optional_of_trimmed Reads.string hkept (by simp [members]) hfield hnone
  have hclasses : Json.optional _ #[] (field "classes") = some p.classes :=
    optional_of_trimmed ClassDecl.reads hkept (by simp [members]) hfield hnone
  have hmethods : Json.optional _ #[] (field "methods") = some p.methods :=
    optional_of_trimmed MethodDecl.reads hkept (by simp [members]) hfield hnone
  have himpls : Json.optional _ #[] (field "implementations") = some p.implementations :=
    optional_of_trimmed Implementation.reads hkept (by simp [members]) hfield hnone
  have hrelocations : Json.optional _ #[] (field "relocations") = some p.relocations :=
    optional_of_trimmed Relocation.reads hkept (by simp [members]) hfield hnone
  have hcode : Json.optional Code.ofJson? #[] (field "code") = some p.code :=
    optional_of_trimmed Reads.uint8 hkept (by simp [members, Code.toJson]) hfield hnone
  simp [ofJson?, hfields, himports, hexternals, hclasses, hmethods, himpls, hrelocations, hcode]

end Package

/-! ### Programs -/

namespace Program

lemma reads (P : Program) : Reads ofJson? P.toJson P := by
  intro j hj
  obtain ⟨field, hfields, hfield, -⟩ := Json.exists_fields? (by simp) hj
    ["global_count", "classes", "methods", "implementations", "external_methods", "code",
      "builtins"]
  have hglobals := (Reads.uint32 P.globalCount).required (hfield "global_count" _ (by simp))
  have hclasses :=
    (Reads.array ClassDecl.reads P.classes).required (hfield "classes" _ (by simp))
  have hmethods := (Reads.array Method.reads P.methods).required (hfield "methods" _ (by simp))
  have himpls := (Reads.array Implementation.reads P.implementations).required
    (hfield "implementations" _ (by simp))
  have hexternals : Json.required namesOfJson? (field "external_methods") = some P.externals :=
    (Reads.array Reads.string P.externals).required (hfield "external_methods" _ (by simp))
  have hcode := (Code.reads P.code).required (hfield "code" _ (by simp))
  have hbuiltins := P.builtins.reads.required (hfield "builtins" _ (by simp))
  simp [ofJson?, hfields, hglobals, hclasses, hmethods, himpls, hexternals, hcode, hbuiltins]

lemma proper_toJson (P : Program) : P.toJson.Proper := by
  refine Json.proper_ofMembers fun m hm => ?_
  simp only [List.mem_cons, List.not_mem_nil, or_false] at hm
  rcases hm with rfl | rfl | rfl | rfl | rfl | rfl | rfl
  · exact Json.proper_ofNat _
  · exact Json.proper_ofArray ClassDecl.proper_toJson _
  · exact Json.proper_ofArray Method.proper_toJson _
  · exact Json.proper_ofArray Implementation.proper_toJson _
  · exact Json.proper_ofArray Json.proper_ofString _
  · exact Code.proper_toJson _
  · exact P.builtins.proper_toJson

end Program

end EffectMachine
