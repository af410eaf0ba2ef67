import BellaLang.Report.SourceIndex
import Mathlib.Data.Finset.Card

/-!
Which texts the index holds after any calls to it.

The index is a list of bounded length, and putting a text in moves its source to the end.  So what
stands behind an entry is what was put in after it, each source once, and an entry falls out at the
front as soon as there are too many of these.

  1. Behind every entry stand the sources of the calls since its own (`Tracks`), and every call
     keeps it like that (`Tracks.register`).
  2. An entry stays as long as fewer than `textsKept` sources have come after it, as only those in
     front of it are dropped (`exists_split_register`, `exists_split_of_isLatest`).

Main statement: `index_remembers_latest`.
-/

namespace BellaLang

/-! ## Histories -/

/-- What can be done to an index. -/
inductive IndexCall where
  | register (source text : String)
  | reset

namespace SourceIndex

/-- The index after a call. -/
def perform (index : SourceIndex) : IndexCall → SourceIndex
  | .register source text => index.register source text
  | .reset => .empty

/-- The index after some calls. -/
def performAll (index : SourceIndex) (calls : List IndexCall) : SourceIndex :=
  calls.foldl perform index

end SourceIndex

/-- The sources of some texts, each once. -/
def sources (texts : List (String × String)) : Finset String := (texts.map Prod.fst).toFinset

theorem mem_sources {texts : List (String × String)} {source : String} :
    source ∈ sources texts ↔ ∃ text, (source, text) ∈ texts := by
  simp [sources]

theorem sources_card_le (texts : List (String × String)) : (sources texts).card ≤ texts.length := by
  rw [← List.length_map Prod.fst]
  exact List.toFinset_card_le _

theorem sources_append_singleton (texts : List (String × String)) (entry : String × String) :
    sources (texts ++ [entry]) = insert entry.1 (sources texts) := by
  rw [sources, List.map_append, List.toFinset_append, Finset.union_comm]
  rfl

/-- The text was put in last of all texts of its source, and then these ones were, all of other
    sources. -/
structure IsLatest (calls : List IndexCall) (source text : String)
    (since : List (String × String)) : Prop where
  history : ∃ before,
    calls = before ++ .register source text :: since.map fun entry => .register entry.1 entry.2
  others : ∀ entry ∈ since, entry.1 ≠ source

theorem IsLatest.register {calls : List IndexCall} {source text : String}
    {since : List (String × String)} (h : IsLatest calls source text since) {other : String}
    (hother : other ≠ source) (content : String) :
    IsLatest (calls ++ [.register other content]) source text (since ++ [(other, content)]) := by
  obtain ⟨⟨before, rfl⟩, hothers⟩ := h
  refine ⟨⟨before, by simp⟩, fun entry hentry => ?_⟩
  rcases List.mem_append.mp hentry with hentry | hentry
  · exact hothers entry hentry
  · rw [List.mem_singleton.mp hentry]
    exact hother

/-! ## What stands behind an entry -/

/-- The entries other than those of a source. -/
abbrev othersOf (source : String) (texts : List (String × String)) : List (String × String) :=
  texts.filter fun entry => entry.1 != source

theorem SourceIndex.register_entries (index : SourceIndex) (source text : String) :
    (index.register source text).entries =
      (othersOf source index.entries ++ [(source, text)]).drop
        ((othersOf source index.entries ++ [(source, text)]).length - textsKept) := rfl

/-- What was put in last stands at the end, behind entries of other sources. -/
theorem SourceIndex.exists_register_entries (index : SourceIndex) (source text : String) :
    ∃ kept, (index.register source text).entries = kept ++ [(source, text)] ∧
      ∀ entry ∈ kept, entry.1 ≠ source := by
  have hfew : (othersOf source index.entries ++ [(source, text)]).length - textsKept ≤
      (othersOf source index.entries).length := by
    rw [List.length_append, List.length_singleton, textsKept]
    omega
  refine ⟨_, List.drop_append_of_le_length hfew, fun entry hentry => ?_⟩
  exact bne_iff_ne.mp (List.mem_filter.mp (List.mem_of_mem_drop hentry)).2

/-- A text that has just been put in is there. -/
theorem SourceIndex.text?_register (index : SourceIndex) (source text : String) :
    (index.register source text).text? source = some text := by
  obtain ⟨kept, hentries, hkept⟩ := index.exists_register_entries source text
  exact List.lookup_eq_some_iff.mpr
    ⟨kept, [], hentries, fun entry hentry => bne_iff_ne.mpr (hkept entry hentry).symm⟩

theorem sources_othersOf_append (source text : String) (texts : List (String × String)) :
    sources (othersOf source texts ++ [(source, text)]) = insert source (sources texts) := by
  rw [sources_append_singleton]
  ext other
  by_cases h : other = source <;> simp [mem_sources, h]

/-- The sources are all different, the bound is kept, and behind every entry stand the sources of
    the calls since its own. -/
structure Tracks (index : SourceIndex) (calls : List IndexCall) : Prop where
  distinct : (index.entries.map Prod.fst).Nodup
  small : index.entries.length ≤ textsKept
  behind : ∀ {front source text back}, index.entries = front ++ (source, text) :: back →
    ∃ since, IsLatest calls source text since ∧ sources since = sources back

theorem tracks_empty (calls : List IndexCall) : Tracks .empty calls where
  distinct := List.nodup_nil
  small := Nat.zero_le _
  behind h := by cases List.append_eq_nil_iff.mp h.symm |>.2

/-- Sources stay different when one of them goes to the end. -/
theorem nodup_othersOf_append {texts : List (String × String)}
    (h : (texts.map Prod.fst).Nodup) (source text : String) :
    ((othersOf source texts ++ [(source, text)]).map Prod.fst).Nodup := by
  have hothers : ((othersOf source texts).map Prod.fst).Nodup :=
    h.sublist (List.filter_sublist.map Prod.fst)
  have hnew : source ∉ (othersOf source texts).map Prod.fst := by
    simp
  rw [List.map_append]
  exact hothers.append (List.nodup_singleton source) (List.disjoint_singleton.mpr hnew)

theorem Tracks.register {index : SourceIndex} {calls : List IndexCall} (h : Tracks index calls)
    (source text : String) :
    Tracks (index.register source text) (calls ++ [.register source text]) where
  distinct := (nodup_othersOf_append h.distinct source text).sublist
    ((List.drop_sublist _ _).map Prod.fst)
  small := by
    rw [SourceIndex.register_entries, List.length_drop]
    omega
  behind {front found content back} hsplit := by
    -- What is dropped in front makes no difference to what stands behind.
    obtain ⟨dropped, hall⟩ : ∃ dropped, othersOf source index.entries ++ [(source, text)] =
        dropped ++ front ++ (found, content) :: back := by
      obtain ⟨dropped, hdropped⟩ := (List.drop_suffix
        ((othersOf source index.entries ++ [(source, text)]).length - textsKept) _)
      rw [← SourceIndex.register_entries, hsplit] at hdropped
      exact ⟨dropped, by rw [← hdropped, List.append_assoc]⟩
    rcases List.eq_nil_or_concat back with rfl | ⟨between, last, rfl⟩
    · obtain ⟨-, hnew⟩ := List.append_inj' hall rfl
      cases hnew
      exact ⟨[], ⟨⟨calls, rfl⟩, nofun⟩, rfl⟩
    · rw [List.concat_eq_append, ← List.cons_append, ← List.append_assoc] at hall
      obtain ⟨hothers, hnew⟩ := List.append_inj' hall rfl
      cases hnew
      obtain ⟨before, rest, hrest, -, hcons⟩ := List.filter_eq_append_iff.mp hothers
      obtain ⟨passed, behind, rfl, -, hfound, rfl⟩ := List.filter_eq_cons_iff.mp hcons
      obtain ⟨since, hlatest, hsources⟩ :=
        h.behind (hrest.trans (List.append_assoc before passed _).symm)
      refine ⟨since ++ [(source, text)], hlatest.register (bne_iff_ne.mp hfound).symm text, ?_⟩
      rw [List.concat_eq_append, sources_othersOf_append, sources_append_singleton, hsources]

/-- **After any calls the index tracks them.** -/
theorem tracks_performAll (calls : List IndexCall) :
    Tracks (SourceIndex.empty.performAll calls) calls := by
  induction calls using List.reverseRecOn with
  | nil => exact tracks_empty []
  | append_singleton calls call ih =>
    rw [SourceIndex.performAll, List.foldl_append]
    cases call with
    | register source text => exact ih.register source text
    | reset => exact tracks_empty _

/-! ## Entries that stay -/

/-- An entry stays if there is room for what stands behind it and a text of another source. -/
theorem exists_split_register {index : SourceIndex} (hdistinct : (index.entries.map Prod.fst).Nodup)
    {front back : List (String × String)} {source text : String}
    (hsplit : index.entries = front ++ (source, text) :: back) {other : String}
    (hother : other ≠ source) (content : String)
    (hroom : (insert other (sources back)).card < textsKept) :
    ∃ front' back', (index.register other content).entries = front' ++ (source, text) :: back' ∧
      sources back' = insert other (sources back) := by
  have hall : othersOf other index.entries ++ [(other, content)] = othersOf other front ++
      (source, text) :: (othersOf other back ++ [(other, content)]) := by
    rw [hsplit, othersOf, List.filter_append, List.filter_cons_of_pos (by simpa using hother.symm),
      List.append_assoc, List.cons_append]
  have hbehind : (othersOf other back ++ [(other, content)]).length < textsKept := by
    have hback : (back.map Prod.fst).Nodup := by
      rw [hsplit, List.map_append, List.map_cons] at hdistinct
      exact (List.nodup_cons.mp (List.nodup_append.mp hdistinct).2.1).2
    rwa [← sources_othersOf_append other content, sources,
      List.toFinset_card_of_nodup (nodup_othersOf_append hback other content),
      List.length_map] at hroom
  -- As there is room behind the entry, what is dropped stands in front of it.
  have hfew : (othersOf other index.entries ++ [(other, content)]).length - textsKept ≤
      (othersOf other front).length := by
    rw [hall, List.length_append, List.length_cons]
    omega
  exact ⟨_, _, (congrArg (List.drop _) hall).trans (List.drop_append_of_le_length hfew),
    sources_othersOf_append other content back⟩

/-- A text that was put in not too long ago is still there, with the sources since behind it. -/
theorem exists_split_of_isLatest {calls : List IndexCall} {source text : String}
    {since : List (String × String)} (h : IsLatest calls source text since)
    (hroom : (sources since).card < textsKept) :
    ∃ front back, (SourceIndex.empty.performAll calls).entries = front ++ (source, text) :: back ∧
      sources back = sources since := by
  obtain ⟨⟨before, rfl⟩, hothers⟩ := h
  induction since using List.reverseRecOn with
  | nil =>
    rw [List.map_nil, SourceIndex.performAll, List.foldl_append]
    obtain ⟨kept, hentries, -⟩ := SourceIndex.exists_register_entries
      (before.foldl SourceIndex.perform SourceIndex.empty) source text
    exact ⟨kept, [], hentries, rfl⟩
  | append_singleton since entry ih =>
    obtain ⟨hothers, hother⟩ := List.forall_mem_append.mp hothers
    rw [sources_append_singleton] at hroom ⊢
    have hless :=
      (Finset.card_le_card (Finset.subset_insert entry.1 (sources since))).trans_lt hroom
    obtain ⟨front, back, hsplit, hback⟩ := ih hless hothers
    rw [← hback] at hroom ⊢
    have hcalls : before ++ .register source text :: (since ++ [entry]).map
        (fun entry => IndexCall.register entry.1 entry.2) =
        (before ++ .register source text :: since.map
          fun entry => IndexCall.register entry.1 entry.2) ++ [.register entry.1 entry.2] := by
      simp
    rw [hcalls, SourceIndex.performAll, List.foldl_append]
    exact exists_split_register (tracks_performAll _).distinct hsplit
      (hother entry (List.mem_singleton_self entry)) entry.2 hroom

/-! ## The law of the index -/

/-- **The index remembers the texts that were put in last.**  After any calls, starting from
    nothing, the text of a source is the one that was put in last, if that was since the last reset
    and fewer than `textsKept` other sources have come after it; if there is no such text, there is
    none in the index.  And there are never more than `textsKept` texts. -/
theorem index_remembers_latest (calls : List IndexCall) :
    (∀ source text, (SourceIndex.empty.performAll calls).text? source = some text ↔
      ∃ since, IsLatest calls source text since ∧ (sources since).card < textsKept) ∧
    (SourceIndex.empty.performAll calls).entries.length ≤ textsKept := by
  have htracks := tracks_performAll calls
  refine ⟨fun source text => ⟨fun h => ?_, fun ⟨since, hlatest, hroom⟩ => ?_⟩, htracks.small⟩
  · obtain ⟨front, back, hsplit, -⟩ := List.lookup_eq_some_iff.mp h
    obtain ⟨since, hlatest, hsources⟩ := htracks.behind hsplit
    have hsmall := htracks.small
    rw [hsplit, List.length_append, List.length_cons] at hsmall
    have hle := sources_card_le back
    exact ⟨since, hlatest, by rw [hsources]; omega⟩
  · obtain ⟨front, back, hsplit, -⟩ := exists_split_of_isLatest hlatest hroom
    refine List.lookup_eq_some_iff.mpr ⟨front, back, hsplit, fun entry hentry => ?_⟩
    have hdistinct := htracks.distinct
    rw [hsplit, List.map_append, List.map_cons] at hdistinct
    refine bne_iff_ne.mpr fun heq => ?_
    exact (List.nodup_append.mp hdistinct).2.2 entry.1 (List.mem_map_of_mem hentry) source
      List.mem_cons_self heq.symm

end BellaLang
