import Netlist.Proofs.PortMap.Duplicates

/-!
# Socket lists and their plugs

A plug is pointed at a socket list by name, and the name is made of the label of the
link and the number of the port. Nothing keeps two links from having one label, nor a
master from naming a plug twice, so a name may belong to several plugs.

- `socketName_inj`: a name tells which label and which port it was made of.
- `getElem?_plug`, `keys_plug`, `node_of_mem_plug`: the slots and the socket lists after
  plugs were set apart.
- `build_socketLists`: the socket lists of a network are those of its links, in order.
- `TellsApart`: every plug finds its own socket list by name.
- `sockets_tell_apart`: **socket lists tell the plugs apart iff no two plugs share a label
  and a port number.** Every plug has a socket list of its own in any case.
-/

namespace Netlist.PortMap

variable {c : Catalog} {d : Diagram} {t : Topology} {link : Slot} {maps : PortMaps}

/-! ## Names -/

/-- Digits after a text that does not end in a digit can be told from it. -/
theorem append_digits_inj {as bs ds es : List Char} {c : Char} (hc : c.isDigit = false)
    (hds : ∀ x ∈ ds, x.isDigit = true) (hes : ∀ x ∈ es, x.isDigit = true)
    (h : (as ++ [c]) ++ ds = (bs ++ [c]) ++ es) : as = bs ∧ ds = es := by
  -- Whatever is between the two texts ends in `c` and is made of digits.
  have hnone : ∀ {xs ys zs : List Char}, (∀ x ∈ zs, x.isDigit = true) →
      xs ++ [c] = (ys ++ [c]) ++ zs → zs = [] := by
    intro xs ys zs hzs heq
    cases hlast : zs.getLast? with
    | none => exact List.getLast?_eq_none_iff.mp hlast
    | some z =>
      have hz : some c = some z := by
        have := congrArg List.getLast? heq
        rwa [List.getLast?_append, List.getLast?_append, hlast] at this
      cases hz
      rw [hzs c (List.mem_of_getLast? hlast)] at hc
      cases hc
  have hcut : as ++ [c] = bs ++ [c] ∧ ds = es := by
    rcases List.append_eq_append_iff.mp h with ⟨zs, hbs, hes'⟩ | ⟨zs, has, hds'⟩
    · have hzs := hnone (fun x hx => hds x (hes' ▸ List.mem_append_left _ hx)) hbs
      subst hzs
      exact ⟨by rw [hbs, List.append_nil], by rw [hes', List.nil_append]⟩
    · have hzs := hnone (fun x hx => hes x (hds' ▸ List.mem_append_left _ hx)) has
      subst hzs
      exact ⟨by rw [has, List.append_nil], by rw [hds', List.nil_append]⟩
  exact ⟨List.append_cancel_right hcut.1, hcut.2⟩

theorem toList_socketName (label : String) (port : Nat) :
    (socketName label port).toList =
      ((label.toList ++ ['_', 'p', 'l', 'u']) ++ ['g']) ++ (toString port).toList := by
  simp only [socketName, String.toList_append, List.append_assoc]
  rfl

/-- **The name of a socket list tells its label and its port.** -/
theorem socketName_inj {label label' : String} {port port' : Nat} :
    socketName label port = socketName label' port' ↔ label = label' ∧ port = port' := by
  constructor
  · intro h
    have htexts := congrArg String.toList h
    rw [toList_socketName, toList_socketName] at htexts
    obtain ⟨hlabels, hports⟩ := append_digits_inj (by decide)
      (fun _ => Text.isDigit_of_mem_repr) (fun _ => Text.isDigit_of_mem_repr) htexts
    exact ⟨String.toList_inj.mp (List.append_cancel_right hlabels), Text.toList_repr_inj.mp hports⟩
  · rintro ⟨rfl, rfl⟩
    rfl

/-! ## The plugs of one link -/

variable {label : String} {ports : List Nat} {portMap : List PortTarget} {k : Nat}

/-- Setting plugs apart points their slots at socket lists and leaves the others alone. -/
theorem getElem?_plug (label : String) (ports : List Nat) (portMap : List PortTarget) (k : Nat) :
    (plug label ports portMap).2[k]? = portMap[k]?.map fun target =>
      if k ∈ ports then .socketList (socketName label k) else target := by
  induction ports generalizing portMap with
  | nil => simp [plug]
  | cons port rest ih =>
    rw [plug]
    cases hport : portMap[port]? with
    | none =>
      show (plug label rest portMap).2[k]? = _
      rw [ih]
      refine Option.map_congr fun target htarget => ?_
      have hne : k ≠ port := by
        rintro rfl
        rw [hport] at htarget
        cases htarget
      simp [hne]
    | some node =>
      show (plug label rest (portMap.set port _)).2[k]? = _
      rw [ih]
      by_cases hk : k = port
      · subst hk
        rw [List.getElem?_set_self (List.getElem?_eq_some_iff.mp hport).1, hport]
        simp
      · rw [List.getElem?_set_ne (Ne.symm hk)]
        simp [hk]

/-- The ports of a list that have a slot. -/
def seated (ports : List Nat) (portMap : List PortTarget) : List Nat :=
  ports.filter (· < portMap.length)

/-- There is one socket list for each plug with a slot, in order. -/
theorem keys_plug (label : String) (ports : List Nat) (portMap : List PortTarget) :
    (plug label ports portMap).1.map (fun list => (list.name, list.link, list.port)) =
      (seated ports portMap).map fun port => (socketName label port, label, port) := by
  induction ports generalizing portMap with
  | nil => rfl
  | cons port rest ih =>
    rw [plug, seated]
    cases hport : portMap[port]? with
    | none =>
      rw [List.filter_cons_of_neg (by simpa using hport)]
      exact ih portMap
    | some node =>
      have hlt := (List.getElem?_eq_some_iff.mp hport).1
      rw [List.filter_cons_of_pos (by simpa using hlt)]
      show _ :: (plug label rest (portMap.set port _)).1.map _ = _
      rw [ih, seated, List.length_set]
      rfl

/-- A socket list keeps what its plug was wired to, if no plug comes twice. -/
theorem node_of_mem_plug (hnodup : (seated ports portMap).Nodup) {list : SocketList}
    (h : list ∈ (plug label ports portMap).1) : portMap[list.port]? = some list.node := by
  induction ports generalizing portMap with
  | nil => cases h
  | cons port rest ih =>
    rw [plug] at h
    cases hport : portMap[port]? with
    | none =>
      rw [seated, List.filter_cons_of_neg (by simpa using hport)] at hnodup
      simp only [hport] at h
      exact ih hnodup h
    | some node =>
      have hlt := (List.getElem?_eq_some_iff.mp hport).1
      rw [seated, List.filter_cons_of_pos (by simpa using hlt), List.nodup_cons] at hnodup
      simp only [hport] at h
      rcases List.mem_cons.mp h with rfl | h
      · exact hport
      · have hseated : seated rest (portMap.set port (.socketList (socketName label port))) =
            seated rest portMap := by
          rw [seated, List.length_set, seated]
        have hlater := ih (hseated.symm ▸ hnodup.2) h
        have hne : port ≠ list.port := by
          rintro heq
          refine hnodup.1 (heq ▸ ?_)
          have hmem := List.mem_map_of_mem (f := fun l : SocketList => (l.name, l.link, l.port)) h
          rw [keys_plug, hseated] at hmem
          obtain ⟨port', hport', heq'⟩ := List.mem_map.mp hmem
          rw [Prod.mk.injEq, Prod.mk.injEq] at heq'
          exact heq'.2.2 ▸ hport'
        rwa [List.getElem?_set_ne hne] at hlater

/-! ## The plugs of a network -/

/-- The label of a link. -/
def labelOf (d : Diagram) (link : Slot) : String := ((d.get? link).map Element.label).getD ""

/-- The master of a link. -/
def master? (c : Catalog) (d : Diagram) (link : Slot) : Option Master :=
  (d.get? link).bind fun e => c.masterOf? e.role

/-- The ports that are plugs of a link, whether or not they have a slot. -/
def plugPorts (c : Catalog) (d : Diagram) (link : Slot) : List Nat :=
  ((master? c d link).map Master.plugs).getD []

/-- What the slots of a link are wired to before its plugs are set apart. -/
def wiring? (c : Catalog) (d : Diagram) (t : Topology) (link : Slot) : Option (List PortTarget) :=
  (d.get? link).bind fun e => (c.masterOf? e.role).bind fun master =>
    (resolve d t link e.locator master).toOption.map fun resolved => resolved.1.portMap

/-- The same, without slots for a link that cannot be wired. -/
def wiring (c : Catalog) (d : Diagram) (t : Topology) (link : Slot) : List PortTarget :=
  (wiring? c d t link).getD []

/-- The plugs of a link that have a slot: the label of the link with the port number. -/
def plugsOf (c : Catalog) (d : Diagram) (t : Topology) (link : Slot) : List (String × Nat) :=
  (seated (plugPorts c d link) (wiring c d t link)).map fun port => (labelOf d link, port)

/-- The socket lists of a link, and its slots after its plugs were set apart. -/
def plugged (c : Catalog) (d : Diagram) (t : Topology) (link : Slot) :
    List SocketList × List PortTarget :=
  plug (labelOf d link) (plugPorts c d link) (wiring c d t link)

/-- A link that could be wired, with its plugs set apart. -/
structure Plugged (c : Catalog) (d : Diagram) (t : Topology) (link : Slot)
    (resolved : ResolvedLink) : Prop where
  wired : wiring? c d t link = some (wiring c d t link)
  resolved : resolved = ⟨link, (plugged c d t link).2⟩
  targets : ∀ target ∈ wiring c d t link, target.number?.isSome = true

theorem Wired.number?_isSome {target : PortTarget} (h : Wired d t link k target) :
    target.number?.isSome = true := by
  rcases h.meets_or_free with ⟨edge, -, node, -, htarget⟩ | ⟨-, rfl⟩
  · rw [PortMap.target, bind_eq_ok] at htarget
    obtain ⟨e, -, htarget⟩ := htarget
    split at htarget
    · cases htarget
      rfl
    · split at htarget
      · cases htarget
        rfl
      · cases htarget
  · rfl

/-- **Links are plugged one by one**, each by its own wiring. -/
theorem resolveAll_plugs {links : List Slot} {progress : Progress}
    (h : resolveAll c d t links = .ok progress) :
    progress.socketLists = links.flatMap (fun link => (plugged c d t link).1) ∧
      List.Forall₂ (Plugged c d t) (links.filter fun i => !isJumper c d i) progress.links ∧
      List.Forall₂ (Plugged c d t) (links.filter (isJumper c d)) progress.jumpers := by
  induction links generalizing progress with
  | nil =>
    cases h
    exact ⟨rfl, .nil, .nil⟩
  | cons link links ih =>
    rw [resolveAll, bind_eq_ok] at h
    obtain ⟨e, he, h⟩ := h
    rw [Diagram.fetch_eq_ok] at he
    split at h
    · cases h
    rename_i master hmaster
    rw [bind_eq_ok] at h
    obtain ⟨⟨resolved, bindings⟩, hresolve, h⟩ := h
    rw [bind_eq_ok] at h
    obtain ⟨later, hlater, h⟩ := h
    obtain ⟨hlists, hlinks, hjumpers⟩ := ih hlater
    obtain ⟨hlink, hresolves, -⟩ := resolve_eq_ok hresolve
    have hwired : wiring? c d t link = some resolved.portMap := by
      rw [wiring?, he, Option.bind_some, hmaster, Option.bind_some, hresolve]
      rfl
    have hwiring : wiring c d t link = resolved.portMap := by
      rw [wiring, hwired, Option.getD_some]
    have hplugs : plugPorts c d link = master.plugs := by
      rw [plugPorts, master?, he, Option.bind_some, hmaster, Option.map_some, Option.getD_some]
    have hplugged : plugged c d t link = plug e.label master.plugs resolved.portMap := by
      rw [plugged, labelOf, he, hplugs, hwiring]
      rfl
    have hjumper : isJumper c d link = !master.plugs.isEmpty := by
      rw [isJumper, he, Option.bind_some, hmaster, Option.any_some]
    have htargets : ∀ target ∈ wiring c d t link, target.number?.isSome = true := by
      rw [hwiring]
      intro target hmem
      obtain ⟨k, hk⟩ := List.getElem?_of_mem hmem
      exact (hresolves.slot k target hk).number?_isSome
    have hown : Plugged c d t link ⟨link, (plugged c d t link).2⟩ :=
      ⟨hwiring ▸ hwired, rfl, htargets⟩
    rw [List.flatMap_cons]
    -- Without plugs it is an ordinary link, and plugging leaves its port map as it was resolved.
    cases hempty : master.plugs.isEmpty with
    | true =>
      simp only [hempty, if_true] at h
      cases h
      rw [List.filter_cons_of_pos (by simp [hjumper, hempty]),
        List.filter_cons_of_neg (by simp [hjumper, hempty])]
      rw [List.isEmpty_iff.mp hempty] at hplugged
      have hsame : resolved = ⟨link, (plugged c d t link).2⟩ := by
        rw [hplugged, ← hlink]
        rfl
      refine ⟨?_, .cons (hsame ▸ hown) hlinks, hjumpers⟩
      show later.socketLists = _
      rw [hplugged, hlists]
      rfl
    | false =>
      simp only [hempty, Bool.false_eq_true, if_false] at h
      cases h
      rw [List.filter_cons_of_neg (by simp [hjumper, hempty]),
        List.filter_cons_of_pos (by simp [hjumper, hempty])]
      rw [hplugged] at hown ⊢
      refine ⟨?_, hlinks, .cons ?_ hjumpers⟩
      · show _ ++ later.socketLists = _
        rw [hlists]
      · rw [hlink]
        exact hown

theorem mem_setUpOrder {links : List Slot} : link ∈ setUpOrder c d links ↔ link ∈ links := by
  rw [setUpOrder, List.mem_append, List.mem_filter, List.mem_filter]
  cases isJumper c d link <;> simp

/-- **The socket lists of a network are those of its links, in order.** -/
theorem build_socketLists (h : PortMaps.build c t d = .ok maps) :
    maps.socketLists = t.links.flatMap (fun link => (plugged c d t link).1) ∧
      List.Forall₂ (Plugged c d t) (setUpOrder c d t.links) maps.links := by
  rw [PortMaps.build, bind_eq_ok] at h
  obtain ⟨progress, hprogress, h⟩ := h
  cases h
  obtain ⟨hlists, hlinks, hjumpers⟩ := resolveAll_plugs hprogress
  exact ⟨hlists, List.rel_append hlinks hjumpers⟩

/-- Socket lists are made of the plugs, in order. -/
theorem keys_socketLists (h : PortMaps.build c t d = .ok maps) :
    maps.socketLists.map (fun list => (list.name, list.link, list.port)) =
      (t.links.flatMap (plugsOf c d t)).map fun plug => (socketName plug.1 plug.2, plug) := by
  rw [(build_socketLists h).1, List.map_flatMap, List.map_flatMap]
  refine List.flatMap_congr fun link _ => ?_
  rw [plugged, keys_plug, plugsOf, List.map_map]
  rfl

/-! ## Telling plugs apart -/

/-- Every plug finds its own socket list by name, and with it what it was wired to. -/
structure TellsApart (c : Catalog) (d : Diagram) (t : Topology) (maps : PortMaps) : Prop where
  names : (maps.socketLists.map SocketList.name).Nodup
  slots : ∀ resolved ∈ maps.links, ∀ k name, resolved.portMap[k]? = some (.socketList name) →
    ∃ list, maps.socketLists.filter (fun l => l.name == name) = [list] ∧
      list.link = labelOf d resolved.link ∧ list.port = k ∧
      (wiring c d t resolved.link)[k]? = some list.node ∧ list.node.number?.isSome = true
  numbers : ∀ link ∈ t.links,
    (maps.numbers link).map some = (wiring c d t link).map PortTarget.number?

/-- Every plug has a socket list that was made for it. -/
theorem exists_socketList (h : PortMaps.build c t d = .ok maps) {resolved : ResolvedLink}
    (hresolved : resolved ∈ maps.links) {name : String}
    (hk : resolved.portMap[k]? = some (.socketList name)) :
    resolved.link ∈ t.links ∧ ∃ list ∈ (plugged c d t resolved.link).1, list.name = name ∧
      list.link = labelOf d resolved.link ∧ list.port = k := by
  obtain ⟨link, hlink, hplugged⟩ := forall₂_mem_right (build_socketLists h).2 hresolved
  have hself : resolved.link = link := by rw [hplugged.resolved]
  rw [hplugged.resolved] at hk
  change (plugged c d t link).2[k]? = _ at hk
  rw [plugged, getElem?_plug, Option.map_eq_some_iff] at hk
  obtain ⟨target, htarget, hk⟩ := hk
  rw [hself]
  refine ⟨mem_setUpOrder.mp hlink, ?_⟩
  split at hk
  · rename_i hport
    have hseated : k ∈ seated (plugPorts c d link) (wiring c d t link) :=
      List.mem_filter.mpr ⟨hport, by simpa using (List.getElem?_eq_some_iff.mp htarget).1⟩
    have hmem := List.mem_map_of_mem
      (f := fun port => (socketName (labelOf d link) port, labelOf d link, port)) hseated
    rw [← keys_plug, List.mem_map] at hmem
    obtain ⟨list, hlist, heq⟩ := hmem
    rw [Prod.mk.injEq, Prod.mk.injEq] at heq
    cases hk
    exact ⟨list, hlist, heq.1, heq.2.1, heq.2.2⟩
  · -- A slot that is no plug keeps its target, and that is no socket list.
    have hnumber := hplugged.targets target (List.mem_of_getElem? htarget)
    rw [hk] at hnumber
    cases hnumber

/-- If no two plugs agree, neither do two names. -/
theorem nodup_names_iff (h : PortMaps.build c t d = .ok maps) :
    (maps.socketLists.map SocketList.name).Nodup ↔ (t.links.flatMap (plugsOf c d t)).Nodup := by
  have hnames : maps.socketLists.map SocketList.name =
      (t.links.flatMap (plugsOf c d t)).map fun plug => socketName plug.1 plug.2 := by
    have := congrArg (List.map Prod.fst) (keys_socketLists h)
    rwa [List.map_map, List.map_map] at this
  rw [hnames]
  refine List.nodup_map_iff fun plug plug' heq => ?_
  obtain ⟨hlabel, hport⟩ := socketName_inj.mp heq
  exact Prod.ext hlabel hport

/-- In a list without repeated names, a name picks out one entry. -/
theorem filter_name_eq {lists : List SocketList} (hnodup : (lists.map SocketList.name).Nodup)
    {list : SocketList} (h : list ∈ lists) :
    lists.filter (fun l => l.name == list.name) = [list] := by
  induction lists with
  | nil => cases h
  | cons first rest ih =>
    obtain ⟨hnot, hnodup⟩ := List.nodup_cons.mp hnodup
    rcases List.mem_cons.mp h with rfl | h
    · have hnone : rest.filter (fun l => l.name == list.name) = [] := by
        refine List.filter_eq_nil_iff.mpr fun l hl heq => hnot ?_
        rw [← beq_iff_eq.mp heq]
        exact List.mem_map_of_mem hl
      rw [List.filter_cons_of_pos (by simp), hnone]
    · have hne : first.name ≠ list.name := fun heq => hnot (heq ▸ List.mem_map_of_mem h)
      rw [List.filter_cons_of_neg (by simpa using hne), ih hnodup h]

/-- Plugs of one link that differ from each other keep what they were wired to. -/
theorem node_of_mem_plugged (hnodup : (t.links.flatMap (plugsOf c d t)).Nodup)
    (hlink : link ∈ t.links) {list : SocketList} (hlist : list ∈ (plugged c d t link).1) :
    (wiring c d t link)[list.port]? = some list.node :=
  node_of_mem_plug ((List.nodup_flatMap.mp hnodup).1 link hlink).of_map hlist

theorem get?_of_mem (h : PortMaps.build c t d = .ok maps) (hlink : link ∈ t.links) :
    maps.get? link = some ⟨link, (plugged c d t link).2⟩ := by
  obtain ⟨-, hlinks⟩ := build_socketLists h
  obtain ⟨own, hown, hplugged⟩ := forall₂_mem_left hlinks (mem_setUpOrder.mpr hlink)
  obtain ⟨found, hfind⟩ := Option.isSome_iff_exists.mp
    (List.find?_isSome (p := fun resolved : ResolvedLink => resolved.link == link) |>.mpr
      ⟨own, hown, by rw [hplugged.resolved]; exact beq_self_eq_true _⟩)
  have hsame := List.find?_some hfind
  rw [beq_iff_eq] at hsame
  obtain ⟨link', -, hplugged'⟩ := forall₂_mem_right hlinks (List.mem_of_find?_eq_some hfind)
  have hlink' : link' = link := by
    rw [← hsame, hplugged'.resolved]
  rw [PortMaps.get?, hfind, hplugged'.resolved, hlink']

/-- **Socket lists tell the plugs apart iff no two plugs share a label and a port
number.** Every plug has a socket list with its label and port in any case. -/
theorem sockets_tell_apart (h : PortMaps.build c t d = .ok maps) :
    (∀ resolved ∈ maps.links, ∀ k name, resolved.portMap[k]? = some (.socketList name) →
      ∃ list ∈ maps.socketLists, list.name = name ∧ list.link = labelOf d resolved.link ∧
        list.port = k) ∧
      (TellsApart c d t maps ↔ (t.links.flatMap (plugsOf c d t)).Nodup) := by
  obtain ⟨hlists, hlinks⟩ := build_socketLists h
  have hmem : ∀ {link list}, link ∈ t.links → list ∈ (plugged c d t link).1 →
      list ∈ maps.socketLists := by
    intro link list hlink hlist
    rw [hlists]
    exact List.mem_flatMap.mpr ⟨link, hlink, hlist⟩
  refine ⟨fun resolved hresolved k name hk => ?_, fun htells => (nodup_names_iff h).mp htells.names,
    fun hnodup => ?_⟩
  · obtain ⟨hlink, list, hlist, hown⟩ := exists_socketList h hresolved hk
    exact ⟨list, hmem hlink hlist, hown⟩
  · have hnames := (nodup_names_iff h).mpr hnodup
    -- Whatever a link is wired to has a number, which its socket lists take over.
    have htargets : ∀ {link}, link ∈ t.links → ∀ target ∈ wiring c d t link,
        target.number?.isSome = true := by
      intro link hlink
      obtain ⟨resolved, -, hplugged⟩ := forall₂_mem_left hlinks (mem_setUpOrder.mpr hlink)
      exact hplugged.targets
    refine ⟨hnames, fun resolved hresolved k name hk => ?_, fun link hlink => ?_⟩
    · obtain ⟨hlink, list, hlist, rfl, hlabel, rfl⟩ := exists_socketList h hresolved hk
      have hnode := node_of_mem_plugged hnodup hlink hlist
      exact ⟨list, filter_name_eq hnames (hmem hlink hlist), hlabel, rfl, hnode,
        htargets hlink _ (List.mem_of_getElem? hnode)⟩
    · have hget := get?_of_mem h hlink
      rw [PortMaps.numbers, hget]
      refine List.ext_getElem? fun k => ?_
      simp only [List.map_map, List.getElem?_map]
      rw [plugged, getElem?_plug]
      cases htarget : (wiring c d t link)[k]? with
      | none => rfl
      | some target =>
        obtain ⟨number, hnumber⟩ := Option.isSome_iff_exists.mp
          (htargets hlink target (List.mem_of_getElem? htarget))
        rw [Option.map_some, Option.map_some, Option.map_some, hnumber, Option.some.injEq,
          Function.comp_apply, Option.some.injEq]
        split
        · -- The plug finds its own list, which is the only one of this name.
          rename_i hport
          have hk : (plugged c d t link).2[k]? =
              some (.socketList (socketName (labelOf d link) k)) := by
            rw [plugged, getElem?_plug, htarget, Option.map_some, if_pos hport]
          obtain ⟨-, list, hlist, hname, -, rfl⟩ :=
            exists_socketList h (List.mem_of_find?_eq_some hget) hk
          have hnode := node_of_mem_plugged hnodup hlink hlist
          rw [htarget, Option.some.injEq] at hnode
          have hfind : maps.socketLists.find? (fun l => l.name == list.name) = some list := by
            rw [← List.head?_filter, filter_name_eq hnames (hmem hlink hlist)]
            rfl
          rw [← hname, PortMaps.number, hfind, Option.bind_some, ← hnode, hnumber, Option.getD_some]
        · cases target with
          | node m => exact Option.some.inj hnumber
          | ground => exact Option.some.inj hnumber
          | socketList name => cases hnumber

/-! ## Two jumpers -/

/-- The library of one master, a jumper with a plug at port `1`. -/
def jumpers : Catalog :=
  ⟨[{ kind := .link, subtype := "Jumper", domain := some .basic, ports := 2, required := [0, 1],
      plugs := [1] }]⟩

/-- A port edge from a link to a node. -/
def lead (id label : String) (link node : Slot) : Element :=
  { part id .port label with source := some link, target := some node }

/-- Two jumpers with given labels, from node `2` to node `3` and from node `2` to node `4`. -/
def jumpersLabelled (first second : String) : Diagram :=
  let elements : List Element :=
    [{ id := "root", role := .root },
      part "net" (.network .sub) "net" Diagram.root,
      part "a" (.node .basic) "0",
      part "b" (.node .basic) "1",
      part "c" (.node .basic) "2",
      part "j" (.link ⟨"Jumper", none⟩) first,
      part "k" (.link ⟨"Jumper", none⟩) second,
      lead "p" "0" 5 2, lead "q" "1" 5 3, lead "r" "0" 6 2, lead "s" "1" 6 4]
  ⟨(elements.map some).toArray⟩

/-- The topology of such a network. -/
def jumperTopology : Topology where
  network := 1
  domain := .basic
  nodes := [2, 3, 4]
  references := []
  grounds := []
  links := [5, 6]
  ports := [7, 8, 9, 10]
  spotters := []
  interfaces := []
  interfaceNodes := []
  prunedGrounds := 0

/-- What is built for such a network. -/
def jumperMaps (first second : String) : PortMaps where
  links := [⟨5, [.node 0, .socketList (socketName first 1)]⟩,
    ⟨6, [.node 0, .socketList (socketName second 1)]⟩]
  socketLists := [⟨socketName first 1, first, 1, .node 1⟩, ⟨socketName second 1, second, 1, .node 2⟩]
  bindings := []

/-- Two jumpers with different labels are told apart. -/
theorem sockets_tell_apart_jumpers :
    PortMaps.build jumpers jumperTopology (jumpersLabelled "J" "K") = .ok (jumperMaps "J" "K") ∧
      TellsApart jumpers (jumpersLabelled "J" "K") jumperTopology (jumperMaps "J" "K") := by
  have hbuild : PortMaps.build jumpers jumperTopology (jumpersLabelled "J" "K") =
      .ok (jumperMaps "J" "K") := by cbv
  have hplugs : jumperTopology.links.flatMap
      (plugsOf jumpers (jumpersLabelled "J" "K") jumperTopology) = [("J", 1), ("K", 1)] := by cbv
  exact ⟨hbuild, (sockets_tell_apart hbuild).2.mpr (by rw [hplugs]; decide)⟩

/-- **Two jumpers with one label share a name**: the plug of the second, which is drawn
to node `2`, counts as drawn to node `1`. -/
theorem doubled_label_shares_socket :
    Topology.extract jumpers true Diagram.root (jumpersLabelled "J" "J") =
        .ok (jumperTopology, jumpersLabelled "J" "J") ∧
      PortMaps.build jumpers jumperTopology (jumpersLabelled "J" "J") = .ok (jumperMaps "J" "J") ∧
      ¬ TellsApart jumpers (jumpersLabelled "J" "J") jumperTopology (jumperMaps "J" "J") ∧
      wiring? jumpers (jumpersLabelled "J" "J") jumperTopology 6 = some [.node 0, .node 2] ∧
      (jumperMaps "J" "J").numbers 6 = [0, 1] := by
  refine ⟨by cbv, by cbv, fun htells => ?_, by cbv, by cbv⟩
  have hnames : (jumperMaps "J" "J").socketLists.map SocketList.name = ["J_plug1", "J_plug1"] := by
    cbv
  have hnodup := htells.names
  rw [hnames] at hnodup
  exact absurd hnodup (by decide)

end Netlist.PortMap
