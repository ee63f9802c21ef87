/-
Packages come back from the files they are stored in.

* `Folder.Lookup.Takes`: a file can be written where a path leads;
* `Folder.follow_put`: a file that has been put where a path leads is found under that path;
* `Folder.packageText_of_store`: the file of a stored package holds its text;
* `packages_and_programs_read_back`: **packages and programs are read back from their texts**, with
  members in any order and, for a package, with empty lists left out.
-/
import EffectMachine.Library
import EffectMachine.Proofs.ObjectRoundTrip
import EffectMachine.Proofs.Utf8RoundTrip

namespace EffectMachine

/-! ### Files -/

namespace Folder

variable {f : Folder} {path : List String} {node : Node}

lemma node?_put_self (h : f.node? path ≠ some .folder) :
    (f.put path node).node? path = some node := by
  have hpath : ¬path.all (· = parentPart) = true := by
    intro hall
    rw [node?, if_pos hall] at h
    exact h rfl
  rw [node?, if_neg hpath, put, List.find?_cons_of_pos (by simp), Option.map_some]

lemma node?_put_of_ne {path' : List String} (h : path' ≠ path) :
    (f.put path node).node? path' = f.node? path' := by
  have hfind : (f.put path node).entries.find? (·.1 = path') =
      f.entries.find? (·.1 = path') := by
    rw [put, List.find?_cons_of_neg (by simpa using h.symm), List.find?_filter]
    refine congrFun (congrArg List.find? (funext fun entry => ?_)) _
    by_cases hentry : entry.1 = path' <;> simp [hentry, h]
  rw [node?, node?, hfind]

/-- A file can be written where the path leads, at the given place. -/
def Lookup.Takes (place : List String) : Lookup → Prop
  | .found reached (.file _) | .vacant reached => reached = place
  | _ => False

/-- The place that takes a file is no folder. -/
lemma node?_ne_folder_of_takes {reached parts : List String}
    (h : (f.follow reached parts).Takes path) : f.node? path ≠ some .folder := by
  fun_induction follow f reached parts with
  | case1 reached node hnode =>
      cases node with
      | file content =>
          obtain rfl : reached = path := h
          simp [hnode]
      | folder => cases h
  | case2 reached hnode =>
      obtain rfl : reached = path := h
      simp [hnode]
  | case3 | case4 | case7 => cases h
  | case5 _ _ _ _ _ ih => exact ih h
  | case6 _ _ _ _ ih => exact ih h
  | case8 _ _ _ _ _ _ _ ih => exact ih h

/-- **A file that has been put where a path leads is found under that path.** The folders on the
way stay, as none of them is the place of the file. -/
lemma follow_put {reached parts : List String} {content : List UInt8}
    (h : (f.follow reached parts).Takes path) :
    (f.put path (.file content)).follow reached parts = .found path (.file content) := by
  have hpath := node?_ne_folder_of_takes h
  have hstays : ∀ {place}, f.node? place = some .folder →
      (f.put path (.file content)).node? place = some .folder := by
    intro place hplace
    have hne : place ≠ path := fun heq => hpath (heq ▸ hplace)
    rw [node?_put_of_ne hne, hplace]
  fun_induction follow f reached parts with
  | case1 reached node hnode =>
      cases node with
      | file old =>
          obtain rfl : reached = path := h
          simp [follow, node?_put_self hpath]
      | folder => cases h
  | case2 reached hnode =>
      obtain rfl : reached = path := h
      simp [follow, node?_put_self hpath]
  | case3 | case4 | case7 => cases h
  | case5 reached part rest hnode hidle ih =>
      rw [follow, hstays hnode]
      simpa [hidle] using ih h
  | case6 reached rest hnode hidle ih =>
      rw [follow, hstays hnode]
      simpa [hidle] using ih h
  | case8 reached part rest hnode hidle hparent hlength ih =>
      rw [follow, hstays hnode]
      simpa [hidle, hparent, hlength] using ih h

lemma lookup_put {name : String} {content : List UInt8} (h : (f.lookup name).Takes path) :
    (f.put path (.file content)).lookup name = .found path (.file content) := by
  unfold lookup at h ⊢
  split_ifs at h ⊢
  · cases h
  · cases h
  · exact follow_put h

lemma exists_takes_of_write {f' : Folder} {name : String} {content : List UInt8}
    (h : f.write name content = some f') :
    ∃ place, (f.lookup name).Takes place ∧ f' = f.put place (.file content) := by
  unfold write at h
  split at h
  case h_1 place old hlookup => exact ⟨place, by rw [hlookup]; rfl, (Option.some.inj h).symm⟩
  case h_2 place hlookup => exact ⟨place, by rw [hlookup]; rfl, (Option.some.inj h).symm⟩
  case h_3 => cases h

/-- **The file of a stored package holds its text.** -/
lemma packageText_of_store {f' : Folder} {name : String} {p : Package}
    (h : f.store name p = .ok f') : f'.packageText name = .ok p.print := by
  unfold store at h
  split at h
  case h_2 => cases h
  case h_1 written hwrite =>
    cases h
    obtain ⟨place, htakes, rfl⟩ := exists_takes_of_write hwrite
    rw [packageText, lookup_put htakes]
    simp only [Utf8.decode_encode]

end Folder

/-! ### Reading back -/

lemma Package.parse?_of_trimmed {p : Package} {kept : List (String × Json)} {j : Json}
    (hkept : Json.Trimmed p.members kept) (hj : Json.Rearranged (.ofMembers kept) j) :
    Package.parse? j.indented = some p ∧ Package.parse? j.compact = some p := by
  have hproper : j.Proper := by
    refine Json.Proper.rearranged (Json.proper_ofMembers fun m hm => ?_) hj
    exact Package.proper_of_mem_members (hkept.1.subset hm)
  have hread := Package.ofJson?_of_trimmed hkept j hj
  simp [parse?, hproper.parse?_indented, hproper.parse?_compact, hread]

lemma Package.parse?_print (p : Package) : Package.parse? p.print = some p :=
  (parse?_of_trimmed ⟨.refl _, fun _ hm => .inl hm⟩ (.refl _)).1

/-- **Packages and programs are read back from their texts.** A package that has been stored is what
its file holds. A text with the members of its objects in another order, and, for a package, without
some of the lists that are empty, is read as the same package or program. -/
theorem packages_and_programs_read_back :
    (∀ p : Package, Package.parse? p.print = some p) ∧
    (∀ (f f' : Folder) (name : String) (p : Package), f.store name p = .ok f' →
      f'.packageText name = .ok p.print ∧ f'.load name = .ok p) ∧
    (∀ (p : Package) (kept : List (String × Json)) (j : Json), Json.Trimmed p.members kept →
      Json.Rearranged (.ofMembers kept) j →
        Package.parse? j.indented = some p ∧ Package.parse? j.compact = some p) ∧
    ∀ (P : Program) (j : Json), Json.Rearranged P.toJson j →
      (Json.parse? j.indented).bind Program.ofJson? = some P ∧
        (Json.parse? j.compact).bind Program.ofJson? = some P := by
  refine ⟨Package.parse?_print, fun f f' name p hstore => ?_,
    fun p kept j => Package.parse?_of_trimmed, fun P j hj => ?_⟩
  · have htext := Folder.packageText_of_store hstore
    refine ⟨htext, ?_⟩
    rw [Folder.load, htext]
    simp only [p.parse?_print]
  · have hproper := P.proper_toJson.rearranged hj
    rw [hproper.parse?_indented, hproper.parse?_compact]
    exact ⟨P.reads j hj, P.reads j hj⟩

/-- A package with a name that has to be escaped and the greatest field count. -/
def quotedPackage : Package where
  imports := #["\"\\\n\x01\x7fé𐍈"]
  classes := #[{ name := "", kind := .user, fieldCount := 4294967295 }]
  code := #[0, 255]

/-- The fields of the package whose lists are not empty. -/
def quotedMembers : List (String × Json) :=
  [("imports", .ofArray .ofString quotedPackage.imports),
    ("classes", .ofArray ClassDecl.toJson quotedPackage.classes),
    ("code", Code.toJson quotedPackage.code)]

/-- The package with members in another order and without its empty lists. -/
def quotedJson : Json :=
  .ofMembers [("code", .array [.integer 0, .integer 255]),
    ("classes", .array [.ofMembers [("field_count", .integer 4294967295), ("name", .ofString ""),
      ("kind", .ofString "User")]]),
    ("imports", .array [.ofString "\"\\\n\x01\x7fé𐍈"])]

theorem quoted_package_reads_back :
    Package.parse? quotedJson.indented = some quotedPackage ∧
      ∃ f : Folder, Folder.store {} "q" quotedPackage = .ok f ∧ f.load "q" = .ok quotedPackage := by
  have htrimmed : Json.Trimmed quotedPackage.members quotedMembers := by
    refine ⟨?_, fun m hm => ?_⟩
    · exact .cons_cons _ (.cons _ (.cons_cons _ (.cons _ (.cons _ (.cons _ (.cons_cons _ .slnil))))))
    · simp only [Package.members, List.mem_cons, List.not_mem_nil, or_false] at hm
      rcases hm with rfl | rfl | rfl | rfl | rfl | rfl | rfl
      all_goals first | exact .inr rfl | exact .inl (by simp [quotedMembers])
  have hclass : Json.Rearranged (ClassDecl.toJson ⟨"", .user, 4294967295⟩)
      (.ofMembers [("field_count", .integer 4294967295), ("name", .ofString ""),
        ("kind", .ofString "User")]) :=
    .object rfl (List.forall₂_same.mpr fun j _ => .refl j) (List.perm_append_singleton _ [_, _])
  have hrearranged : Json.Rearranged (.ofMembers quotedMembers) quotedJson := by
    refine .object ?_ ?_ (List.reverse_perm [_, _, _]).symm
    · rfl
    · exact .cons (.refl _) (.cons (.array (.cons hclass .nil)) (.cons (.refl _) .nil))
  have hlookup : Folder.lookup {} (Folder.packageFile "q") = .vacant ["q.json"] := rfl
  have hstore : Folder.store {} "q" quotedPackage =
      .ok (Folder.put {} ["q.json"] (.file (Utf8.encode quotedPackage.print))) := by
    rw [Folder.store, Folder.write, hlookup]
  exact ⟨(packages_and_programs_read_back.2.2.1 _ _ _ htrimmed hrearranged).1, _, hstore,
    (packages_and_programs_read_back.2.1 _ _ _ _ hstore).2⟩

end EffectMachine
