import Mathlib
import Netlist.Library.Catalog
import Netlist.Proofs.Edit.Runs

/-!
# Families of masters

A catalog is searched by family and subtype, or by class and variant. The families do not
share subtypes, but they share classes: whoever declares a class first answers for it, for
links and for spotters alike. So a shape gets a master of its own family unless it names a
class that a master of the other family declared first.

- `ofList_eq_ok`: which lists of masters make a catalog.
- `masterOf?_eq_some`: which master a link or spotter has.
- `ofList_families`: **when shapes get masters of their own family.**
-/

namespace Netlist

/-- The family and the shape of a link or spotter. -/
def Role.shaped? : Role → Option (MasterKind × Shape)
  | .link shape => some (.link, shape)
  | .spotter shape => some (.spotter, shape)
  | _ => none

namespace Master

/-- What a catalog holds at most once. -/
def key (m : Master) : MasterKind × String := (m.kind, m.subtype)

/-- Whether a master declares a class with this variant. -/
def Declares (m : Master) (name : String) (variant : Option String) : Prop :=
  m.className = some name ∧ m.variant = variant

end Master

namespace Catalog

variable {c c₀ : Catalog} {masters : List Master} {m : Master} {role : Role} {kind : MasterKind}
  {shape : Shape} {name subtype : String} {variant : Option String}

/-- A master is the first of a list to declare a class with this variant. -/
def FirstToDeclare (masters : List Master) (name : String) (variant : Option String)
    (m : Master) : Prop :=
  m.Declares name variant ∧
    ∃ before after, masters = before ++ m :: after ∧ ∀ m' ∈ before, ¬ m'.Declares name variant

/-! ## Making a catalog -/

theorem insert_eq_ok : c₀.insert m = .ok c ↔
    m.key ∉ c₀.masters.map Master.key ∧ c = ⟨c₀.masters ++ [m]⟩ := by
  have hfree : c₀.bySubtype? m.kind m.subtype = none ↔ m.key ∉ c₀.masters.map Master.key := by
    rw [bySubtype?, List.find?_eq_none, List.mem_map]
    simp [Master.key]
  rw [insert, ← hfree]
  cases c₀.bySubtype? m.kind m.subtype with
  | none => simp [eq_comm]
  | some owner => simp

/-- Adding masters to a catalog keeps their order, and fails iff two share a key. -/
theorem foldlM_insert_eq_ok (hnodup : (c₀.masters.map Master.key).Nodup) :
    masters.foldlM insert c₀ = .ok c ↔
      c = ⟨c₀.masters ++ masters⟩ ∧ ((c₀.masters ++ masters).map Master.key).Nodup := by
  -- on the masters to come, for every catalog so far that has no repetitions
  induction masters generalizing c₀ with
  | nil =>
    rw [List.append_nil]
    refine ⟨fun h => ?_, fun ⟨h, _⟩ => h ▸ rfl⟩
    cases h
    exact ⟨rfl, hnodup⟩
  | cons m masters ih =>
    rw [List.foldlM_cons, bind_eq_ok, ← List.singleton_append, ← List.append_assoc]
    constructor
    · rintro ⟨c₁, hinsert, hrest⟩
      obtain ⟨hfree, rfl⟩ := insert_eq_ok.mp hinsert
      refine (ih ?_).mp hrest
      rw [List.map_append, List.map_singleton, ← List.concat_eq_append]
      exact hnodup.concat hfree
    · rintro ⟨rfl, hall⟩
      have hone : ((c₀.masters ++ [m]).map Master.key).Nodup := by
        rw [List.map_append] at hall
        exact hall.of_append_left
      refine ⟨_, insert_eq_ok.mpr ⟨?_, rfl⟩, (ih hone).mpr ⟨rfl, hall⟩⟩
      rw [List.map_append, List.nodup_append] at hone
      exact fun hmem => hone.2.2 _ hmem _ List.mem_cons_self rfl

/-- **A list of masters makes a catalog** iff no two share family and subtype. -/
theorem ofList_eq_ok : ofList masters = .ok c ↔
    c = ⟨masters⟩ ∧ (masters.map Master.key).Nodup :=
  foldlM_insert_eq_ok List.nodup_nil

/-! ## Looking up -/

theorem byClass?_eq_some :
    c.byClass? name variant = some m ↔ FirstToDeclare c.masters name variant m := by
  rw [byClass?, List.find?_eq_some_iff_append]
  simp [FirstToDeclare, Master.Declares, imp_iff_not_or]

theorem byClass?_eq_none :
    c.byClass? name variant = none ↔ ∀ m ∈ c.masters, ¬ m.Declares name variant := by
  rw [byClass?, List.find?_eq_none]
  simp [Master.Declares]

/-- Of a family and a subtype there is one master. -/
theorem bySubtype?_eq_some (hnodup : (c.masters.map Master.key).Nodup) :
    c.bySubtype? kind subtype = some m ↔ m ∈ c.masters ∧ m.kind = kind ∧ m.subtype = subtype := by
  have hsound : ∀ m', c.bySubtype? kind subtype = some m' →
      m' ∈ c.masters ∧ m'.kind = kind ∧ m'.subtype = subtype := by
    intro m' hfound
    have htest := List.find?_some hfound
    rw [Bool.and_eq_true, beq_iff_eq, beq_iff_eq] at htest
    exact ⟨List.mem_of_find?_eq_some hfound, htest⟩
  refine ⟨hsound m, fun ⟨hmem, hkind, hsubtype⟩ => ?_⟩
  -- the search stops at a master with this key, and there is only one
  have hsome : (c.bySubtype? kind subtype).isSome := by
    rw [bySubtype?, List.find?_isSome]
    exact ⟨m, hmem, by simp [hkind, hsubtype]⟩
  obtain ⟨m', hfound⟩ := Option.isSome_iff_exists.mp hsome
  obtain ⟨hmem', hkind', hsubtype'⟩ := hsound m' hfound
  have hkey : m'.key = m.key := by
    rw [Master.key, Master.key, hkind, hkind', hsubtype, hsubtype']
  rw [hfound, List.inj_on_of_nodup_map hnodup hmem' hmem hkey]

/-- **Which master a link or spotter has**: the first to declare the class it names, whatever
its family, else the one with its family and subtype. -/
theorem masterOf?_eq_some (hnodup : (c.masters.map Master.key).Nodup)
    (hshape : role.shaped? = some (kind, shape)) : c.masterOf? role = some m ↔
      (∃ name, shape.className? = some name ∧ FirstToDeclare c.masters name shape.variant? m) ∨
      (∀ name, shape.className? = some name → ∀ m' ∈ c.masters, ¬ m'.Declares name shape.variant?) ∧
        m ∈ c.masters ∧ m.kind = kind ∧ m.subtype = shape.subtype := by
  have hrole : c.masterOf? role = c.byShape? kind shape := by
    cases role <;> cases hshape <;> rfl
  rw [hrole, byShape?, Option.or_eq_some_iff, bySubtype?_eq_some hnodup, Option.bind_eq_some_iff,
    Option.bind_eq_none_iff]
  simp only [byClass?_eq_some, byClass?_eq_none]

/-! ## Families -/

/-- Every shape of a family gets a master of this family, if it gets one. -/
def KeepsTo (c : Catalog) (kind : MasterKind) : Prop :=
  ∀ role shape m, role.shaped? = some (kind, shape) → c.masterOf? role = some m → m.kind = kind

/-- Somebody is the first to declare a class that is declared. -/
theorem exists_firstToDeclare (hmem : m ∈ masters) (h : m.Declares name variant) :
    ∃ m', FirstToDeclare masters name variant m' := by
  cases hfound : (Catalog.mk masters).byClass? name variant with
  | none => exact absurd h (byClass?_eq_none.mp hfound m hmem)
  | some m' => exact ⟨m', byClass?_eq_some.mp hfound⟩

/-- A family is kept to iff it is the family of whoever declares a class first. -/
theorem keepsTo_iff (hnodup : (c.masters.map Master.key).Nodup) : c.KeepsTo kind ↔
    ∀ name variant m, FirstToDeclare c.masters name variant m → m.kind = kind := by
  constructor
  · intro h name variant m hfirst
    -- a shape of either family may name the class
    obtain ⟨role, hshape⟩ : ∃ role : Role, role.shaped? = some (kind, ⟨"", some ⟨name, variant⟩⟩) := by
      cases kind
      · exact ⟨.link _, rfl⟩
      · exact ⟨.spotter _, rfl⟩
    exact h role _ m hshape ((masterOf?_eq_some hnodup hshape).mpr (.inl ⟨name, rfl, hfirst⟩))
  · intro h role shape m hshape hm
    rcases (masterOf?_eq_some hnodup hshape).mp hm with ⟨name, -, hfirst⟩ | ⟨-, -, hkind, -⟩
    · exact h name _ m hfirst
    · exact hkind

/-- Both families are kept to iff there are no classes. -/
theorem keepsTo_all_iff (hnodup : (c.masters.map Master.key).Nodup) :
    (∀ kind, c.KeepsTo kind) ↔ ∀ m ∈ c.masters, m.className = none := by
  constructor
  · intro h m hmem
    by_contra hclass
    obtain ⟨name, hname⟩ := Option.ne_none_iff_exists'.mp hclass
    obtain ⟨m', hfirst⟩ := exists_firstToDeclare hmem ⟨hname, rfl⟩
    have hlink := (keepsTo_iff hnodup).mp (h .link) name m.variant m' hfirst
    have hspotter := (keepsTo_iff hnodup).mp (h .spotter) name m.variant m' hfirst
    cases hlink.symm.trans hspotter
  · intro h kind
    refine (keepsTo_iff hnodup).mpr fun name variant m hfirst => ?_
    obtain ⟨⟨hname, -⟩, before, after, hmasters, -⟩ := hfirst
    have hmem : m ∈ c.masters := hmasters ▸ List.mem_append_right _ List.mem_cons_self
    cases (h m hmem).symm.trans hname

/-- **When shapes get masters of their own family.** A link or spotter that names a declared
class gets the first master to declare it, whatever its family, and only else the master with
its family and subtype. So the shapes of a family get masters of this family iff no class was
declared first in the other family, and those of both families do iff there are no classes. -/
theorem ofList_families (h : ofList masters = .ok c) :
    (∀ role kind shape m, role.shaped? = some (kind, shape) → (c.masterOf? role = some m ↔
      (∃ name, shape.className? = some name ∧ FirstToDeclare masters name shape.variant? m) ∨
      (∀ name, shape.className? = some name → ∀ m' ∈ masters, ¬ m'.Declares name shape.variant?) ∧
        m ∈ masters ∧ m.kind = kind ∧ m.subtype = shape.subtype)) ∧
    (∀ kind, c.KeepsTo kind ↔
      ∀ name variant m, FirstToDeclare masters name variant m → m.kind = kind) ∧
    ((∀ kind, c.KeepsTo kind) ↔ ∀ m ∈ masters, m.className = none) := by
  obtain ⟨rfl, hnodup⟩ := ofList_eq_ok.mp h
  exact ⟨fun _ _ _ _ => masterOf?_eq_some hnodup, fun _ => keepsTo_iff hnodup,
    keepsTo_all_iff hnodup⟩

/-! ### A class that both families know -/

/-- A pump, which declares the class of both. -/
def pump : Master where
  kind := .link
  subtype := "Pump"
  className := some "Pump"
  ports := 2
  required := [0, 1]
  fields := Fields.ofList [("c00.Head", "1.0")]

/-- A gauge on a pump, which declares the class again. -/
def pumpGauge : Master where
  kind := .spotter
  subtype := "PumpGauge"
  className := some "Pump"
  fields := Fields.ofList [("i00.Reading", "0")]

/-- The pump comes first, so links are safe and spotters are not. -/
theorem ofList_families_pumps : ofList [pump, pumpGauge] = .ok ⟨[pump, pumpGauge]⟩ ∧
    Catalog.KeepsTo ⟨[pump, pumpGauge]⟩ .link ∧ ¬ Catalog.KeepsTo ⟨[pump, pumpGauge]⟩ .spotter := by
  have hmade : ofList [pump, pumpGauge] = .ok ⟨[pump, pumpGauge]⟩ :=
    ofList_eq_ok.mpr ⟨rfl, by decide⟩
  refine ⟨hmade, ((ofList_families hmade).2.1 .link).mpr fun name variant m hfirst => ?_, fun h => ?_⟩
  · have hfound := (byClass?_eq_some (c := ⟨[pump, pumpGauge]⟩)).mpr hfirst
    rcases List.mem_pair.mp (List.mem_of_find?_eq_some hfound) with rfl | rfl
    · rfl
    · obtain ⟨⟨hname, rfl⟩, -⟩ := hfirst
      obtain rfl := Option.some.inj hname
      exact absurd hfound (by decide)
  · have hkind := h (.spotter ⟨"PumpGauge", some ⟨"Pump", none⟩⟩) _ pump rfl (by decide)
    cases hkind

/-- A spotter may get the master of a link. -/
theorem family_left : ¬ ∀ (masters : List Master) (c : Catalog) (role : Role) (kind : MasterKind)
    (shape : Shape) (m : Master), ofList masters = .ok c → role.shaped? = some (kind, shape) →
      c.masterOf? role = some m → m.kind = kind := by
  intro h
  have hkind := h [pump, pumpGauge] ⟨[pump, pumpGauge]⟩ (.spotter ⟨"PumpGauge", some ⟨"Pump", none⟩⟩)
    .spotter _ pump (ofList_eq_ok.mpr ⟨rfl, by decide⟩) rfl (by decide)
  cases hkind

end Catalog

end Netlist
