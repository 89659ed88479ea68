import Mathlib.Data.List.Forall2
import Netlist.PortMap
import Netlist.Proofs.Edit.Runs

/-!
# How ports fill the slots of a link

The ports of a link are read in document order, and each claims the slot with
its number. This module says what that comes to for one slot, in terms of the
ports that are drawn with its number.

- `portsAt`, `farNode?`, `scope?`: the ports of a link with a number, the node
  at the far end of one, and the part of the network that node lies in.
- `Collides`: the arrangements of parts of the network that are refused.
- `settle_none_eq_some`: which claim wins a slot.
- `fill_eq_ok`, `fill_eq_duplicate`: the slots after all ports were read, and
  why a port is refused as a duplicate.
-/

namespace Netlist.PortMap

variable {d : Diagram} {t : Topology} {link : Slot} {owner : Locator}

/-! ## The ports of a link -/

/-- Whether a slot holds a port of a link with a number. -/
def carries (d : Diagram) (link : Slot) (number : Nat) (edge : Slot) : Bool :=
  (d.get? edge).any fun e => e.touches link && e.labelNatural? Text.countLimit == some number

/-- The ports of a link with a number, in document order. -/
def portsAt (d : Diagram) (t : Topology) (link : Slot) (number : Nat) : List Slot :=
  t.ports.filter (carries d link number)

/-- The node at the far end of a port of a link. -/
def farNode? (d : Diagram) (t : Topology) (link edge : Slot) : Option Slot :=
  ((d.get? edge).bind fun e => e.otherEnd? link).filter fun node => node != link && t.isNode node

/-- The part of the network that a port of a link ends in: an interface, or
`none` for the main network. -/
def scope? (d : Diagram) (t : Topology) (link edge : Slot) : Option (Option Slot) :=
  (farNode? d t link edge).map t.interfaceOf?

/-- A drawn port says what its edge says. -/
structure IsDrawn (d : Diagram) (t : Topology) (link : Slot) (p : DrawnPort) : Prop where
  carries : carries d link p.number p.edge = true
  far : farNode? d t link p.edge = some p.node

/-- The far node of a port is its other end. -/
theorem farNode?_eq_some {p node : Slot} (h : farNode? d t link p = some node) :
    ∃ e, d.get? p = some e ∧ e.otherEnd? link = some node ∧ t.isNode node = true := by
  obtain ⟨hbind, hnode⟩ := Option.filter_eq_some_iff.mp h
  obtain ⟨e, he, hfar⟩ := Option.bind_eq_some_iff.mp hbind
  rw [Bool.and_eq_true] at hnode
  exact ⟨e, he, hfar, hnode.2⟩

theorem carries_iff {number : Nat} {edge : Slot} :
    carries d link number edge = true ↔
      ∃ e, d.get? edge = some e ∧ e.touches link = true ∧
        e.labelNatural? Text.countLimit = some number := by
  simp [carries, Option.any_eq_true]

/-- A port carries one number. -/
theorem carries_unique {m n : Nat} {edge : Slot} (hm : carries d link m edge = true)
    (hn : carries d link n edge = true) : m = n := by
  obtain ⟨e, he, -, hem⟩ := carries_iff.mp hm
  obtain ⟨e', he', -, hen⟩ := carries_iff.mp hn
  rw [he] at he'
  cases he'
  rw [hem] at hen
  exact Option.some.inj hen

/-- The parts of the network that the ports of a link with a number end in. -/
def scopesAt (drawn : List DrawnPort) (t : Topology) (number : Nat) : List (Option Slot) :=
  (drawn.filter fun p => p.number == number).map fun p => t.interfaceOf? p.node

theorem scopesAt_cons_self (p : DrawnPort) (drawn : List DrawnPort) :
    scopesAt (p :: drawn) t p.number = t.interfaceOf? p.node :: scopesAt drawn t p.number := by
  simp [scopesAt]

theorem IsDrawn.carries_iff {p : DrawnPort} (h : IsDrawn d t link p) (number : Nat) :
    PortMap.carries d link number p.edge = true ↔ p.number = number := by
  constructor
  · intro hn
    exact carries_unique h.carries hn
  · rintro rfl
    exact h.carries

theorem readPort_eq_ok {edge : Slot} {p : DrawnPort} {e : Element} (he : d.get? edge = some e)
    (hlink : e.touches link = true) (h : readPort d t link owner edge = .ok p) :
    p.edge = edge ∧ IsDrawn d t link p := by
  rw [readPort, bind_eq_ok] at h
  obtain ⟨e', he', h⟩ := h
  rw [Diagram.fetch_eq_ok.mp he', Option.some.injEq] at he
  subst he
  rw [Diagram.fetch_eq_ok] at he'
  split at h
  · cases h
  · rename_i number hnumber
    split at h
    · cases h
    · rename_i node hnode
      cases h
      exact ⟨rfl, PortMap.carries_iff.mpr ⟨_, he', hlink, hnumber⟩, by
        rw [farNode?, he', Option.bind_some]
        exact hnode⟩

/-- The drawn ports of a link are its ports with their numbers and far nodes,
in order. -/
theorem drawnPorts_eq_ok {edges : List Slot} {drawn : List DrawnPort}
    (h : drawnPorts d t link owner edges = .ok drawn) :
    (∀ p ∈ drawn, IsDrawn d t link p) ∧
      drawn.map DrawnPort.edge =
        edges.filter fun i => (d.get? i).any fun e => e.touches link := by
  induction edges generalizing drawn with
  | nil =>
    cases h
    simp
  | cons edge edges ih =>
    rw [drawnPorts, bind_eq_ok] at h
    obtain ⟨e, he, h⟩ := h
    rw [Diagram.fetch_eq_ok] at he
    rw [List.filter_cons, he, Option.any_some]
    split at h
    · rename_i htouch
      rw [bind_eq_ok] at h
      obtain ⟨p, hp, h⟩ := h
      rw [bind_eq_ok] at h
      obtain ⟨rest, hrest, h⟩ := h
      cases h
      obtain ⟨rfl, hdrawn⟩ := readPort_eq_ok he htouch hp
      obtain ⟨hall, hedges⟩ := ih hrest
      rw [if_pos htouch, List.map_cons, hedges]
      exact ⟨List.forall_mem_cons.mpr ⟨hdrawn, hall⟩, rfl⟩
    · rename_i htouch
      rw [if_neg htouch]
      exact ih h

theorem edge_filter_number {drawn : List DrawnPort} (hdrawn : ∀ p ∈ drawn, IsDrawn d t link p)
    (number : Nat) :
    (drawn.filter fun p => p.number == number).map DrawnPort.edge =
      (drawn.map DrawnPort.edge).filter (carries d link number) := by
  rw [List.filter_map]
  congr 1
  refine List.filter_congr fun p hp => ?_
  rw [Bool.eq_iff_iff, beq_iff_eq]
  exact ((hdrawn p hp).carries_iff number).symm

/-- The drawn ports with a number are those the topology has with it. -/
theorem edges_drawnPorts {drawn : List DrawnPort}
    (h : drawnPorts d t link owner t.ports = .ok drawn) (number : Nat) :
    (drawn.filter fun p => p.number == number).map DrawnPort.edge = portsAt d t link number := by
  obtain ⟨hdrawn, hedges⟩ := drawnPorts_eq_ok h
  rw [edge_filter_number hdrawn, hedges, List.filter_filter, portsAt]
  refine List.filter_congr fun i _ => ?_
  rw [Bool.eq_iff_iff, Bool.and_eq_true]
  constructor
  · exact fun h => h.1
  · intro hi
    obtain ⟨e, he, htouch, -⟩ := carries_iff.mp hi
    exact ⟨hi, by rw [he, Option.any_some]; exact htouch⟩

/-- A port that was read is one of the ports with its number. -/
theorem mem_portsAt_of_drawn {drawn : List DrawnPort} {p : DrawnPort}
    (h : drawnPorts d t link owner t.ports = .ok drawn) (hp : p ∈ drawn) :
    p.edge ∈ portsAt d t link p.number := by
  rw [← edges_drawnPorts h]
  exact List.mem_map_of_mem (List.mem_filter.mpr ⟨hp, beq_self_eq_true _⟩)

/-- A link without ports with a number is one for which none was read. -/
theorem portsAt_eq_nil_iff {drawn : List DrawnPort}
    (h : drawnPorts d t link owner t.ports = .ok drawn) {number : Nat} :
    portsAt d t link number = [] ↔ number ∉ drawn.map DrawnPort.number := by
  rw [← edges_drawnPorts h, List.map_eq_nil_iff, List.filter_eq_nil_iff]
  simp

/-- The parts of the network in which the drawn ports with a number end. -/
theorem map_scope?_portsAt {drawn : List DrawnPort}
    (h : drawnPorts d t link owner t.ports = .ok drawn) (number : Nat) :
    (portsAt d t link number).map (scope? d t link) = (scopesAt drawn t number).map some := by
  obtain ⟨hdrawn, -⟩ := drawnPorts_eq_ok h
  rw [← edges_drawnPorts h, scopesAt, List.map_map, List.map_map]
  refine List.map_congr_left fun p hp => ?_
  simp [scope?, (hdrawn p (List.mem_of_mem_filter hp)).far]

/-! ## Which ports collide -/

/-- Whether ports that end in these parts of the network, in order, are refused
when `held` is where the port that has the slot ends. A port in the main
network takes the slot over. -/
def clash : Option (Option Slot) → List (Option Slot) → Bool
  | _, [] => false
  | none, s :: rest => clash (some s) rest
  | some held, s :: rest => held == s || clash (some (if s.isNone then s else held)) rest

/-- Two ports end in the same part of the network, and that is the main network,
or the earlier of them is the first of all and no port in between ends in the
main network. -/
def Collides (scopes : List (Option Slot)) : Prop :=
  ∃ before s between after, scopes = before ++ s :: (between ++ s :: after) ∧
    (s = none ∨ before = [] ∧ none ∉ between)

/-- Once the main network has the slot, only another port in it is refused. -/
theorem clash_main (scopes : List (Option Slot)) : clash (some none) scopes = true ↔ none ∈ scopes := by
  induction scopes with
  | nil => simp [clash]
  | cons s rest ih =>
    cases s with
    | none => simp [clash]
    | some a => simpa [clash] using ih

/-- While an interface has the slot, its own ports are refused up to the first
port in the main network. -/
theorem clash_interface (a : Slot) (scopes : List (Option Slot)) :
    clash (some (some a)) scopes = true ↔
      (∃ between after, scopes = between ++ some a :: after ∧ none ∉ between) ∨
        ∃ before between after, scopes = before ++ none :: (between ++ none :: after) := by
  induction scopes with
  | nil => simp [clash]
  | cons s rest ih =>
    cases s with
    | none =>
      have hclash : clash (some (some a)) (none :: rest) = clash (some none) rest := rfl
      -- The port in the main network takes the slot, so the second one of this kind is refused.
      rw [hclash, clash_main]
      constructor
      · intro h
        obtain ⟨between, after, rfl⟩ := List.append_of_mem h
        exact .inr ⟨[], between, after, rfl⟩
      · rintro (⟨between, after, h, hnone⟩ | ⟨before, between, after, h⟩)
        · cases between with
          | nil => cases h
          | cons b between =>
            cases h
            exact absurd List.mem_cons_self hnone
        · cases before with
          | nil =>
            cases h
            simp
          | cons b before =>
            cases h
            simp
    | some b =>
      -- A port of another interface yields to the interface that has the slot.
      by_cases hab : a = b
      · subst hab
        simp only [clash, beq_self_eq_true, Bool.true_or, true_iff]
        exact .inl ⟨[], rest, rfl, by simp⟩
      · have hclash : clash (some (some a)) (some b :: rest) = clash (some (some a)) rest := by
          simp [clash, hab]
        rw [hclash, ih]
        constructor
        · rintro (⟨between, after, rfl, hnone⟩ | ⟨before, between, after, rfl⟩)
          · exact .inl ⟨some b :: between, after, rfl, by simpa using hnone⟩
          · exact .inr ⟨some b :: before, between, after, rfl⟩
        · rintro (⟨between, after, h, hnone⟩ | ⟨before, between, after, h⟩)
          · cases between with
            | nil =>
              cases h
              exact absurd rfl hab
            | cons c between =>
              cases h
              exact .inl ⟨between, after, rfl, fun hmem => hnone (List.mem_cons_of_mem _ hmem)⟩
          · cases before with
            | nil => cases h
            | cons c before =>
              cases h
              exact .inr ⟨before, between, after, rfl⟩

/-- **Ports on a free slot are refused iff they collide.** -/
theorem clash_none (scopes : List (Option Slot)) : clash none scopes = true ↔ Collides scopes := by
  cases scopes with
  | nil => simp [clash, Collides]
  | cons s rest =>
    have hclash : clash none (s :: rest) = clash (some s) rest := rfl
    rw [hclash]
    cases s with
    | none =>
      -- The first port has the slot from now on.
      rw [clash_main]
      constructor
      · intro h
        obtain ⟨between, after, rfl⟩ := List.append_of_mem h
        exact ⟨[], none, between, after, rfl, .inl rfl⟩
      · rintro ⟨before, s, between, after, h, hs⟩
        cases before with
        | nil =>
          cases h
          simp
        | cons b before =>
          rcases hs with rfl | ⟨hnil, -⟩
          · cases h
            simp
          · cases hnil
    | some a =>
      rw [clash_interface]
      constructor
      · rintro (⟨between, after, rfl, hnone⟩ | ⟨before, between, after, rfl⟩)
        · exact ⟨[], some a, between, after, rfl, .inr ⟨rfl, hnone⟩⟩
        · exact ⟨some a :: before, none, between, after, rfl, .inl rfl⟩
      · rintro ⟨before, s, between, after, h, hs⟩
        cases before with
        | nil =>
          cases h
          rcases hs with hs | ⟨-, hnone⟩
          · cases hs
          · exact .inl ⟨between, after, rfl, hnone⟩
        | cons b before =>
          rcases hs with rfl | ⟨hnil, -⟩
          · cases h
            exact .inr ⟨before, between, after, rfl⟩
          · cases hnil

/-! ## Which claim wins -/

/-- The claim a slot holds after further claims on it; none if two collide. -/
def settle : Option Claim → List Claim → Option (Option Claim)
  | held, [] => some held
  | held, new :: rest => (new.against? held).bind fun claim => settle (some claim) rest

theorem against?_none (new : Claim) : new.against? none = some new := rfl

/-- The claim in the main network comes out of two claims that do not collide. -/
theorem against?_some (new held : Claim) :
    new.against? (some held) =
      if held.scope = new.scope then none else if new.scope.isNone then some new else some held :=
  rfl

/-- Claims collide as their parts of the network clash. -/
theorem settle_eq_none_iff (held : Option Claim) (claims : List Claim) :
    settle held claims = none ↔ clash (held.map Claim.scope) (claims.map Claim.scope) = true := by
  induction claims generalizing held with
  | nil => simp [settle, clash]
  | cons new rest ih =>
    cases held with
    | none => simpa [settle, against?_none, clash] using ih (some new)
    | some held =>
      rw [settle, against?_some]
      by_cases hsame : held.scope = new.scope
      · simp [clash, hsame]
      · rw [if_neg hsame]
        by_cases hmain : new.scope.isNone
        · simpa [clash, hsame, hmain] using ih (some new)
        · simpa [clash, hsame, hmain] using ih (some held)

/-- Whether a claim is made in the main network. -/
def Claim.isMain (c : Claim) : Bool := c.scope.isNone

/-- Claims after the first one change the winner only if one of them is in the
main network and the first is not. -/
theorem settle_some_eq_some {held : Claim} {claims : List Claim} {winner : Option Claim}
    (h : settle (some held) claims = some winner) :
    winner = some (if held.isMain then held
      else (claims.find? Claim.isMain).getD held) := by
  induction claims generalizing held with
  | nil =>
    cases h
    simp
  | cons new rest ih =>
    rw [settle, against?_some] at h
    by_cases hsame : held.scope = new.scope
    · rw [if_pos hsame] at h
      cases h
    · rw [if_neg hsame] at h
      by_cases hmain : new.isMain
      · rw [if_pos (show new.scope.isNone = true from hmain)] at h
        have hheld : held.isMain = false := by
          rw [Bool.eq_false_iff]
          intro hnone
          exact hsame (by rw [Option.isNone_iff_eq_none.mp hnone, Option.isNone_iff_eq_none.mp hmain])
        rw [ih h, if_pos hmain, List.find?_cons_of_pos hmain, hheld]
        simp
      · rw [if_neg (show ¬ new.scope.isNone = true from hmain)] at h
        rw [ih h, List.find?_cons_of_neg hmain]

/-- **Which claim wins a slot**: the one in the main network if there is one,
else the first. -/
theorem settle_none_eq_some {claims : List Claim} {winner : Option Claim}
    (h : settle none claims = some winner) :
    winner = (claims.find? Claim.isMain).or claims.head? := by
  cases claims with
  | nil =>
    cases h
    rfl
  | cons first rest =>
    rw [settle, against?_none, Option.bind_some] at h
    rw [settle_some_eq_some h]
    by_cases hmain : first.isMain
    · rw [if_pos hmain, List.find?_cons_of_pos hmain]
      rfl
    · rw [if_neg hmain, List.find?_cons_of_neg hmain, List.head?_cons]
      cases rest.find? Claim.isMain <;> rfl

/-! ## Filling all slots -/

/-- A drawn port makes a claim. -/
structure Makes (d : Diagram) (t : Topology) (p : DrawnPort) (c : Claim) : Prop where
  scope : c.scope = t.interfaceOf? p.node
  target : target d p.node = .ok c.target

theorem Makes.map_scope {ports : List DrawnPort} {claims : List Claim}
    (h : List.Forall₂ (Makes d t) ports claims) :
    claims.map Claim.scope = ports.map fun p => t.interfaceOf? p.node := by
  induction h with
  | nil => rfl
  | cons hmakes _ ih => rw [List.map_cons, List.map_cons, hmakes.scope, ih]

/-- A step of `fill` that goes on: the port has a slot, and its claim is settled
against the one there. -/
theorem fill_cons_eq_ok {slots filled : List (Option Claim)} {port : DrawnPort}
    {rest : List DrawnPort} (h : fill d t owner slots (port :: rest) = .ok filled) :
    ∃ held new claim, slots[port.number]? = some held ∧ Makes d t port new ∧
      new.against? held = some claim ∧
      fill d t owner (slots.set port.number (some claim)) rest = .ok filled := by
  rw [fill, bind_eq_ok] at h
  obtain ⟨edge, -, h⟩ := h
  split at h
  · cases h
  · rename_i held hheld
    rw [bind_eq_ok] at h
    obtain ⟨target, htarget, h⟩ := h
    split at h
    · cases h
    · rename_i claim hclaim
      exact ⟨held, _, claim, hheld, ⟨rfl, htarget⟩, hclaim, h⟩

/-- **The slots after all ports were read**: each holds what is settled between
the claims of the ports with its number. -/
theorem fill_eq_ok {slots filled : List (Option Claim)} {drawn : List DrawnPort}
    (h : fill d t owner slots drawn = .ok filled) :
    filled.length = slots.length ∧
      ∀ number held, slots[number]? = some held →
        ∃ claims, List.Forall₂ (Makes d t) (drawn.filter fun p => p.number == number) claims ∧
          ∃ winner, filled[number]? = some winner ∧ settle held claims = some winner := by
  induction drawn generalizing slots with
  | nil =>
    cases h
    exact ⟨rfl, fun number held hheld => ⟨[], .nil, held, hheld, rfl⟩⟩
  | cons port rest ih =>
    obtain ⟨held₀, new, claim, hheld₀, hmakes, hclaim, hrest⟩ := fill_cons_eq_ok h
    obtain ⟨hlength, hslots⟩ := ih hrest
    refine ⟨by rw [hlength, List.length_set], fun number held hheld => ?_⟩
    by_cases hnumber : port.number = number
    · subst hnumber
      rw [hheld₀, Option.some.injEq] at hheld
      subst hheld
      have hlt : port.number < slots.length := (List.getElem?_eq_some_iff.mp hheld₀).1
      obtain ⟨claims, hclaims, winner, hwinner, hsettle⟩ :=
        hslots port.number (some claim) (by rw [List.getElem?_set_self hlt])
      refine ⟨new :: claims, ?_, winner, hwinner, ?_⟩
      · rw [List.filter_cons_of_pos (by simp)]
        exact .cons hmakes hclaims
      · rw [settle, hclaim, Option.bind_some]
        exact hsettle
    · obtain ⟨claims, hclaims, hwinner⟩ :=
        hslots number held (by rw [List.getElem?_set_ne hnumber, hheld])
      refine ⟨claims, ?_, hwinner⟩
      rw [List.filter_cons_of_neg (by simpa using hnumber)]
      exact hclaims

theorem target_ne_duplicate {node : Slot} {port : Locator} {number : Nat} :
    target d node ≠ .error (.violation (.duplicatePort owner port number)) := by
  intro h
  rw [target, bind_eq_error] at h
  rcases h with h | ⟨e, -, h⟩
  · rw [Diagram.fetch] at h
    split at h <;> cases h
  · split at h
    · cases h
    · split at h <;> cases h

/-- **Why a port is refused as a duplicate**: the ports with its number clash
with what its slot holds. -/
theorem fill_eq_duplicate {slots : List (Option Claim)} {drawn : List DrawnPort}
    {o port : Locator} {number : Nat}
    (h : fill d t owner slots drawn = .error (.violation (.duplicatePort o port number))) :
    o = owner ∧ ∃ held, slots[number]? = some held ∧
      clash (held.map Claim.scope) (scopesAt drawn t number) = true := by
  induction drawn generalizing slots with
  | nil => cases h
  | cons p rest ih =>
    rw [fill, bind_eq_error] at h
    rcases h with h | ⟨edge, -, h⟩
    · rw [Diagram.fetch] at h
      split at h <;> cases h
    split at h
    · cases h
    rename_i held hheld
    rw [bind_eq_error] at h
    rcases h with h | ⟨target, -, h⟩
    · exact absurd h target_ne_duplicate
    split at h
    · rename_i hagainst
      cases h
      refine ⟨rfl, held, hheld, ?_⟩
      rw [scopesAt_cons_self]
      cases held with
      | none => cases hagainst
      | some held =>
        -- The first of the ports is refused by what its slot holds.
        rw [against?_some] at hagainst
        split_ifs at hagainst with hsame
        simp only at hsame
        simp [clash, hsame]
    · rename_i claim hagainst
      obtain ⟨ho, held', hheld', hclash⟩ := ih h
      refine ⟨ho, ?_⟩
      -- A later port is refused. If it has the number of the first one, the claim that is kept
      -- decides which scope it clashes with.
      by_cases hnumber : p.number = number
      · subst hnumber
        have hlt : p.number < slots.length := (List.getElem?_eq_some_iff.mp hheld).1
        rw [List.getElem?_set_self hlt, Option.some.injEq] at hheld'
        subst hheld'
        refine ⟨held, hheld, ?_⟩
        rw [scopesAt_cons_self]
        cases held with
        | none =>
          cases hagainst
          exact hclash
        | some held =>
          rw [against?_some] at hagainst
          split_ifs at hagainst with hsame hmain
          · cases hagainst
            simp only at hmain
            simpa [clash, hmain] using .inr hclash
          · cases hagainst
            simp only at hmain
            simpa [clash, hmain] using .inr hclash
      · rw [List.getElem?_set_ne hnumber] at hheld'
        refine ⟨held', hheld', ?_⟩
        rw [scopesAt, List.filter_cons_of_neg (by simpa using hnumber)]
        exact hclash

end Netlist.PortMap
