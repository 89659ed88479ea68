import Netlist.Proofs.Connections.Fields
import Netlist.Proofs.Lists

/-!
# Which texts are connections

A text is cut into segments and each of them into fields, whatever the reader does. What it
reads off a text from left to right is what the segments spell, and it stops early iff one of
them spells nothing.

- `connection?_spells`, `connection?_of_spells`: what is read as a connection is a segment that
  spells it, and such a segment is read up to its end.
- `read_eq_ok_iff`: what a text reads as, by its segments.
- `read_accepts_grammar`: **a text is accepted iff it is blank or all of its segments spell
  connections.**
-/

namespace Netlist.Connections

open Netlist.Text

/-! ## Reading segments -/

/-- **What is read as a connection is a segment that spells it.** -/
theorem connection?_spells {c : Connection} {cs rest : List Char}
    (h : connection? cs = some (c, rest)) :
    ∃ segment, cs = segment ++ rest ∧ ';' ∉ segment ∧ Spells segment c := by
  obtain ⟨f₀, hcut₀, htrim₀, hitems₀⟩ := item_cut cs
  rw [connection?] at h
  split at h
  · rename_i first others r₁ hlink
    rw [hlink] at hcut₀ htrim₀
    split at h
    · rename_i port r₂ hport
      obtain ⟨f₁, digits, hcut₁, hwords, hdigits, hlimit, hitems₁⟩ := port?_spells hport
      obtain ⟨f₂, hcut₂, htrim₂, hitems₂⟩ := item_cut r₂
      split at h
      · rename_i key r₃ hkey
        rw [hkey] at hcut₂ htrim₂
        obtain ⟨f₃, hcut₃, hnumbers, hitems₃⟩ := portMap_spells r₃
        generalize portMap r₃ = found at h hcut₃ hnumbers
        obtain ⟨rfl, rfl⟩ := Prod.mk.inj (Option.some.inj h)
        rw [isItem_iff] at hitems₀ hitems₁ hitems₂ hitems₃
        simp only at hcut₀ hcut₂ htrim₀ htrim₂
        refine ⟨f₀ ++ ',' :: (f₁ ++ ',' :: (f₂ ++ ',' :: f₃)), ?_, ?_, f₀, f₁, f₂, f₃,
          splitOn_eq_fields.mpr ⟨rfl, hitems₀.1, hitems₁.1, hitems₂.1, hitems₃.1⟩, ?_, ?_,
          ⟨digits, hwords, hdigits, hlimit⟩, ?_, hnumbers⟩
        · simp only [List.append_assoc, List.cons_append]
          rw [← hcut₃, ← hcut₂, ← hcut₁, ← hcut₀]
        · simp [hitems₀.2, hitems₁.2, hitems₂.2, hitems₃.2]
        · rw [← htrim₀]
          exact List.cons_ne_nil first others
        · rw [hlink, String.toList_ofList, htrim₀]
        · rw [String.toList_ofList, htrim₂]
      · cases h
    · cases h
  · cases h

/-- **A segment that spells a connection is read up to its end.** -/
theorem connection?_of_spells {c : Connection} {segment rest : List Char}
    (h : Spells segment c) (hsegment : ';' ∉ segment) (hrest : AtEntryEnd rest) :
    connection? (segment ++ rest) = some (c, rest) := by
  obtain ⟨f₀, f₁, f₂, f₃, hsplit, hne, hlink, ⟨digits, hwords, hdigits, hlimit⟩, hkey,
    hnumbers⟩ := h
  obtain ⟨rfl, hcomma₀, -, hcomma₂, -⟩ := splitOn_eq_fields.mp hsplit
  simp only [List.mem_append, List.mem_cons, not_or] at hsegment
  obtain ⟨hsemi₀, -, -, -, hsemi₂, -, -⟩ := hsegment
  have hitem₀ : ∀ rest, item (f₀ ++ ',' :: rest) = (trimChars f₀, ',' :: rest) := fun _ =>
    item_append (isItem_iff.mpr ⟨hcomma₀, hsemi₀⟩)
  have hitem₂ : ∀ rest, item (f₂ ++ ',' :: rest) = (trimChars f₂, ',' :: rest) := fun _ =>
    item_append (isItem_iff.mpr ⟨hcomma₂, hsemi₂⟩)
  obtain ⟨first, others, hcons⟩ := List.exists_cons_of_ne_nil hne
  simp only [List.append_assoc, List.cons_append]
  rw [connection?, hitem₀, hcons]
  simp only
  rw [port?_of_words hwords hdigits hlimit]
  simp only
  rw [hitem₂]
  simp only
  rw [portMap_of_words hnumbers hrest, ← hcons, ← hlink, ← hkey, String.ofList_toList,
    String.ofList_toList]

/-! ## Reading texts -/

/-- Segments after the first one each follow a `;`. -/
def laterSegments (segments : List (List Char)) : List Char := segments.flatMap (';' :: ·)

theorem laterSegments_cons (segment : List Char) (segments : List (List Char)) (rest : List Char) :
    laterSegments (segment :: segments) ++ rest =
      ';' :: (segment ++ (laterSegments segments ++ rest)) := by
  simp [laterSegments]

/-- After all segments there may be one `;` more. -/
def AtEnd (cs : List Char) : Prop := cs = [] ∨ cs = [';']

theorem atEntryEnd_laterSegments {rest : List Char} (segments : List (List Char))
    (hrest : AtEnd rest) : AtEntryEnd (laterSegments segments ++ rest) := by
  cases segments with
  | nil => exact hrest.imp_right fun h => ⟨[], h⟩
  | cons segment segments => exact .inr ⟨_, rfl⟩

/-- Where no segment follows, reading stops. -/
theorem moreConnections_atEnd {rest : List Char} (h : AtEnd rest) :
    moreConnections rest = ([], rest) := by
  rcases h with rfl | rfl
  · rw [moreConnections]
    intro _ h
    cases h
  · have hnone : connection? [] = none := rfl
    rw [moreConnections]
    split
    · rename_i hread
      cases hnone.symm.trans hread
    · rfl

theorem moreConnections_spells (cs : List Char) :
    ∃ segments, cs = laterSegments segments ++ (moreConnections cs).2 ∧
      (∀ segment ∈ segments, ';' ∉ segment) ∧
      List.Forall₂ Spells segments (moreConnections cs).1 := by
  fun_induction moreConnections cs with
  | case1 cs c rest hread _ more left hmore ih =>
    rw [hmore] at ih
    obtain ⟨segments, hcut, hfree, hspells⟩ := ih
    obtain ⟨segment, hsegment, hsemi, hspell⟩ := connection?_spells hread
    refine ⟨segment :: segments, ?_, List.forall_mem_cons.mpr ⟨hsemi, hfree⟩,
      .cons hspell hspells⟩
    rw [hsegment, hcut, laterSegments_cons]
  | case2 cs => exact ⟨[], rfl, by simp, .nil⟩
  | case3 cs => exact ⟨[], rfl, by simp, .nil⟩

theorem moreConnections_of_spells {segments : List (List Char)} {cs : List Connection}
    {rest : List Char} (h : List.Forall₂ Spells segments cs)
    (hfree : ∀ segment ∈ segments, ';' ∉ segment) (hrest : AtEnd rest) :
    moreConnections (laterSegments segments ++ rest) = (cs, rest) := by
  -- on the segments, each of which is read up to the `;` of the next
  induction h with
  | nil => exact moreConnections_atEnd hrest
  | @cons segment c segments cs hspell hspells ih =>
    obtain ⟨hsemi, hfree⟩ := List.forall_mem_cons.mp hfree
    have hread := connection?_of_spells hspell hsemi (atEntryEnd_laterSegments segments hrest)
    rw [laterSegments_cons, moreConnections]
    split
    · rename_i hread'
      cases hread.symm.trans hread'
      rw [ih hfree]
    · rename_i hread'
      cases hread.symm.trans hread'

/-- A text is read if at most a `;` is left of it. -/
theorem read_eq_ok_iff_entries {text : String} {cs : List Connection} :
    read text = .ok cs ↔ ∃ rest, entries (trimChars text.toList) = (cs, rest) ∧ AtEnd rest := by
  rw [read]
  generalize entries (trimChars text.toList) = found
  obtain ⟨found, rest⟩ := found
  dsimp only
  constructor
  · intro h
    split_ifs at h with hempty
    cases h
    refine ⟨rest, rfl, ?_⟩
    split at hempty
    · exact .inr (congrArg (';' :: ·) (List.isEmpty_iff.mp hempty))
    · exact .inl (List.isEmpty_iff.mp hempty)
  · rintro ⟨rest, heq, rfl | rfl⟩ <;> cases heq <;> rfl

theorem withoutEnd_append (cs : List Char) : withoutEnd (cs ++ [';']) = cs := by
  rw [withoutEnd, List.getLast?_concat, if_pos rfl, List.dropLast_concat]

theorem exists_atEnd (cs : List Char) : ∃ rest, AtEnd rest ∧ cs = withoutEnd cs ++ rest := by
  rw [withoutEnd]
  split
  · rename_i hlast
    exact ⟨[';'], .inr rfl, (List.dropLast_append_getLast? _ hlast).symm⟩
  · exact ⟨[], .inl rfl, (List.append_nil cs).symm⟩

/-- Segments that are not empty are found again, with or without a `;` at the end. -/
theorem splitOn_withoutEnd {segments : List (List Char)} {rest : List Char} (hne : segments ≠ [])
    (hfree : ∀ segment ∈ segments, ';' ∉ segment) (hnonempty : [] ∉ segments)
    (hrest : AtEnd rest) :
    (withoutEnd ([';'].intercalate segments ++ rest)).splitOn ';' = segments := by
  have hsplit := List.splitOn_intercalate ';' hfree hne
  rcases hrest with rfl | rfl
  · rw [List.append_nil, withoutEnd, if_neg, hsplit]
    intro hlast
    -- a `;` at the end would leave an empty piece behind it
    rw [← List.dropLast_append_getLast? _ hlast, List.splitOn_append_cons_self,
      List.splitOn_nil] at hsplit
    exact hnonempty (hsplit ▸ List.mem_append_right _ List.mem_cons_self)
  · rw [withoutEnd_append, hsplit]

theorem Spells.ne_nil {segment : List Char} {c : Connection} (h : Spells segment c) :
    segment ≠ [] := by
  obtain ⟨f₀, f₁, f₂, f₃, hsplit, -⟩ := h
  rw [(splitOn_eq_fields.mp hsplit).1]
  simp

/-- Entries up to the end of a text are what its segments spell. -/
theorem entries_spells {t rest : List Char} {cs : List Connection} (h : entries t = (cs, rest))
    (hrest : AtEnd rest) :
    withoutEnd t = [] ∧ cs = [] ∨ List.Forall₂ Spells ((withoutEnd t).splitOn ';') cs := by
  rw [entries] at h
  split at h
  · cases h
    refine .inl ⟨?_, rfl⟩
    rcases hrest with rfl | rfl <;> rfl
  · rename_i c left hread
    obtain ⟨segment, rfl, hsemi, hspell⟩ := connection?_spells hread
    obtain ⟨segments, hcut, hfree, hspells⟩ := moreConnections_spells left
    cases h
    have hall : List.Forall₂ Spells (segment :: segments) (c :: (moreConnections left).1) :=
      .cons hspell hspells
    have hsemis : ∀ s ∈ segment :: segments, ';' ∉ s := List.forall_mem_cons.mpr ⟨hsemi, hfree⟩
    have hnonempty : [] ∉ segment :: segments := fun hmem => by
      obtain ⟨c', -, hspell'⟩ := forall₂_mem_left hall hmem
      exact hspell'.ne_nil rfl
    have hjoin : segment ++ left =
        [';'].intercalate (segment :: segments) ++ (moreConnections left).2 := by
      rw [intercalate_cons_eq, List.append_assoc]
      exact congrArg (segment ++ ·) hcut
    rw [hjoin, splitOn_withoutEnd (List.cons_ne_nil _ _) hsemis hnonempty hrest]
    exact .inr hall

/-- A text is read up to its end if its segments spell connections. -/
theorem entries_of_spells {t : List Char} {cs : List Connection}
    (h : List.Forall₂ Spells ((withoutEnd t).splitOn ';') cs) :
    ∃ rest, entries t = (cs, rest) ∧ AtEnd rest := by
  obtain ⟨rest, hrest, hcut⟩ := exists_atEnd t
  obtain ⟨segment, segments, hsplit⟩ :=
    List.exists_cons_of_ne_nil (List.splitOn_ne_nil ';' (withoutEnd t))
  obtain ⟨hjoin, hfree⟩ := (splitOn_eq_iff (List.cons_ne_nil _ _)).mp hsplit
  obtain ⟨hsemi, hlater⟩ := List.forall_mem_cons.mp hfree
  rw [hsplit] at h
  obtain ⟨c, more, hspell, hmore, rfl⟩ := List.forall₂_cons_left_iff.mp h
  have hread := connection?_of_spells hspell hsemi (atEntryEnd_laterSegments segments hrest)
  have htext : t = segment ++ (laterSegments segments ++ rest) := by
    rw [hcut, hjoin, intercalate_cons_eq, List.append_assoc]
    rfl
  refine ⟨rest, ?_, hrest⟩
  rw [htext, entries, hread]
  simp only
  rw [moreConnections_of_spells hmore hlater hrest]

/-- **What a text reads as, by its segments.** -/
theorem read_eq_ok_iff {text : String} {cs : List Connection} :
    read text = .ok cs ↔
      withoutEnd (trimChars text.toList) = [] ∧ cs = [] ∨
        List.Forall₂ Spells ((withoutEnd (trimChars text.toList)).splitOn ';') cs := by
  rw [read_eq_ok_iff_entries]
  constructor
  · rintro ⟨rest, hentries, hrest⟩
    exact entries_spells hentries hrest
  · rintro (⟨hnil, rfl⟩ | hspells)
    · obtain ⟨rest, hrest, hcut⟩ := exists_atEnd (trimChars text.toList)
      rw [hnil, List.nil_append] at hcut
      refine ⟨rest, ?_, hrest⟩
      rw [hcut]
      rcases hrest with rfl | rfl <;> rfl
    · exact entries_of_spells hspells

/-- **The accepted texts.** After trimming and without one `;` at its end, a text is accepted
iff it is empty, which reads as no connections, or each of its segments between `;` spells a
connection: it has exactly three commas, its link is not blank, its port is one run of digits
that fits the machine, and its numbers are integers that do. The connections are then those
that the segments spell, with links and keys trimmed. -/
theorem read_accepts_grammar (text : String) :
    (∀ cs, read text = .ok cs ↔
      withoutEnd (trimChars text.toList) = [] ∧ cs = [] ∨
        List.Forall₂ Spells ((withoutEnd (trimChars text.toList)).splitOn ';') cs) ∧
    ((∃ cs, read text = .ok cs) ↔ withoutEnd (trimChars text.toList) = [] ∨
      ∀ segment ∈ (withoutEnd (trimChars text.toList)).splitOn ';', ∃ c, Spells segment c) := by
  refine ⟨fun cs => read_eq_ok_iff, ?_⟩
  simp only [read_eq_ok_iff]
  constructor
  · rintro ⟨cs, ⟨hnil, -⟩ | hspells⟩
    · exact .inl hnil
    · refine .inr fun segment hmem => ?_
      obtain ⟨c, -, hspell⟩ := forall₂_mem_left hspells hmem
      exact ⟨c, hspell⟩
  · rintro (hnil | hspells)
    · exact ⟨[], .inl ⟨hnil, rfl⟩⟩
    · obtain ⟨cs, hcs⟩ := exists_forall₂ hspells
      exact ⟨cs, .inr hcs⟩

example : read " R1 , 0 , inlet ,  3\t-1 ;\n" = .ok [⟨"R1", 0, "inlet", [3, -1]⟩] := by cbv

end Netlist.Connections
