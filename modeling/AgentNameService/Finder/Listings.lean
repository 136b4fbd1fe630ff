/-
Purpose: The catalog name by name.  Applying a page never fails, and to the rows of a name it does what the snapshots and
  burials of the page's items do to one subject of a feed.
Source: internal/adapter/store/sqlitefinder/apply.go, internal/finder/poller/poller.go
Trusted boundary: none
-/
import AgentNameService.Finder.Poller
import AgentNameService.Foundation.Replay

namespace AgentNameService.Finder

open List Except Replay

variable {groups : List EventGroup} {pe : ProjectedEntry} {g : EventGroup} {out : List ProjectedEntry}

/-! ### Entries without repetition -/

theorem place_putByTypeURL (h : (out.map ProjectedEntry.place).Nodup) :
    ((putByTypeURL out pe).map ProjectedEntry.place).Nodup := by
  unfold putByTypeURL
  split
  · -- an entry is replaced by one with the same place
    have hsame : (out.map fun old => if old.place = pe.place then pe else old).map ProjectedEntry.place =
        out.map ProjectedEntry.place := by
      rw [map_map]
      apply map_congr_left
      intro old _
      simp only [Function.comp_apply]
      split
      · exact (‹old.place = pe.place›).symm
      · rfl
    rw [hsame]
    exact h
  · rename_i hnone
    rw [map_append, nodup_append]
    refine ⟨h, nodup_singleton _, ?_⟩
    intro place hplace other hother heq
    obtain ⟨old, hold, rfl⟩ := mem_map.mp hplace
    obtain rfl := mem_singleton.mp hother
    apply hnone
    rw [any_eq_true]
    exact ⟨old, hold, decide_eq_true heq⟩

theorem mem_putByTypeURL {x : ProjectedEntry} : x ∈ putByTypeURL out pe ↔ x = pe ∨ x ∈ out ∧ x.place ≠ pe.place := by
  unfold putByTypeURL
  split
  · rename_i hany
    obtain ⟨old, hold, hsame⟩ := any_eq_true.mp hany
    rw [mem_map]
    constructor
    · rintro ⟨y, hy, rfl⟩
      split
      · exact .inl rfl
      · exact .inr ⟨hy, ‹_›⟩
    · rintro (rfl | ⟨hx, hother⟩)
      · exact ⟨old, hold, if_pos (of_decide_eq_true hsame)⟩
      · exact ⟨x, hx, if_neg hother⟩
  · rename_i hnone
    rw [mem_append, mem_singleton, or_comm]
    refine or_congr_right (and_iff_left_of_imp fun hx hsame => hnone ?_).symm
    exact any_eq_true.mpr ⟨x, hx, decide_eq_true hsame⟩

theorem dedupByTypeURL_concat (entries : List ProjectedEntry) (pe : ProjectedEntry) :
    dedupByTypeURL (entries ++ [pe]) = putByTypeURL (dedupByTypeURL entries) pe := by
  simp [dedupByTypeURL, foldl_append]

/-- What folding keeps one place for each entry, loses none and invents none. -/
theorem dedupByTypeURL_spec (entries : List ProjectedEntry) : ((dedupByTypeURL entries).map ProjectedEntry.place).Nodup ∧
    (∀ pe ∈ dedupByTypeURL entries, pe ∈ entries) ∧ (dedupByTypeURL entries = [] → entries = []) := by
  induction entries using reverseRecOn with
  | nil => exact ⟨nodup_nil, nofun, fun _ => rfl⟩
  | append_singleton entries pe ih =>
    obtain ⟨hnodup, hmem, _⟩ := ih
    rw [dedupByTypeURL_concat]
    refine ⟨place_putByTypeURL hnodup, ?_, fun h => absurd h (ne_nil_of_mem (mem_putByTypeURL.mpr (.inl rfl)))⟩
    intro x hx
    rcases mem_putByTypeURL.mp hx with rfl | ⟨hold, _⟩
    · exact mem_append_right _ mem_cons_self
    · exact mem_append_left _ (hmem x hold)

/-! ### Groups of a page -/

/-- The group of an event, if it has entries. -/
def EventGroup.ofEntries : List ProjectedEntry → Option EventGroup
  | [] => none
  | pe :: rest => some ⟨pe, rest⟩

/-- Entries with a key that a group has go to the groups with that key. -/
theorem foldl_addToGroups_known {entries : List ProjectedEntry} {key : String}
    (hknown : ∃ g ∈ groups, groupKey g.first = key) (hkey : ∀ pe ∈ entries, groupKey pe = key) :
    entries.foldl addToGroups groups =
      groups.map fun g => if groupKey g.first = key then { g with rest := g.rest ++ entries } else g := by
  induction entries generalizing groups with
  | nil =>
    conv_lhs => rw [foldl_nil, ← map_id groups]
    apply map_congr_left
    intro g _
    simp
  | cons pe rest ih =>
    obtain ⟨g, hg, hsame⟩ := hknown
    have hpe : groupKey pe = key := hkey pe mem_cons_self
    have hany : groups.any (fun x => groupKey x.first = groupKey pe) = true := by
      rw [any_eq_true]
      exact ⟨g, hg, decide_eq_true (hsame.trans hpe.symm)⟩
    have hput : addToGroups groups pe =
        groups.map fun g => if groupKey g.first = key then { g with rest := g.rest ++ [pe] } else g := by
      unfold addToGroups
      rw [if_pos hany, hpe]
    rw [foldl_cons, hput, ih]
    · rw [map_map]
      apply map_congr_left
      intro x _
      simp only [Function.comp_apply]
      by_cases hx : groupKey x.first = key <;> simp [hx]
    · refine ⟨_, mem_map_of_mem hg, ?_⟩
      rw [if_pos hsame]
      exact hsame
    · intro x hx
      exact hkey x (mem_cons_of_mem _ hx)

/-- The entries of one event make one group. -/
theorem foldl_addToGroups_event {entries : List ProjectedEntry} (key : String)
    (hclosed : ∀ x ∈ groups, groupKey x.first ≠ key) (hkey : ∀ pe ∈ entries, groupKey pe = key) :
    entries.foldl addToGroups groups = groups ++ (EventGroup.ofEntries entries).toList := by
  cases entries with
  | nil => simp [EventGroup.ofEntries]
  | cons pe rest =>
    have hpe : groupKey pe = key := hkey pe mem_cons_self
    have hopen : addToGroups groups pe = groups ++ [⟨pe, []⟩] := by
      unfold addToGroups
      rw [if_neg]
      rw [any_eq_true]
      rintro ⟨x, hx, hsame⟩
      exact hclosed x hx ((of_decide_eq_true hsame).trans hpe)
    have hothers : groups.map (fun g => if groupKey g.first = key then { g with rest := g.rest ++ rest } else g) = groups :=
      (map_congr_left fun g hg => if_neg (hclosed g hg)).trans (map_id groups)
    rw [foldl_cons, hopen, foldl_addToGroups_known ⟨⟨pe, []⟩, mem_append_right _ mem_cons_self, hpe⟩
      fun x hx => hkey x (mem_cons_of_mem _ hx), map_append, hothers, map_singleton, if_pos hpe]
    rfl

/-- Two events of different log ids have no key in common, since no name holds the separator. -/
theorem logID_eq_of_groupKey_eq {a b : ProjectedEntry} (ha : '\x00' ∉ a.ansName.toList) (hb : '\x00' ∉ b.ansName.toList)
    (h : groupKey a = groupKey b) : a.logID = b.logID := by
  have hsplit {xs ys us vs : List Char} (hxs : '\x00' ∉ xs) (hus : '\x00' ∉ us)
      (heq : xs ++ '\x00' :: ys = us ++ '\x00' :: vs) : xs = us ∧ ys = vs := by
    induction xs generalizing us with
    | nil =>
      cases us with
      | nil =>
        cases heq
        exact ⟨rfl, rfl⟩
      | cons u us =>
        cases heq
        exact absurd mem_cons_self hus
    | cons x xs ih =>
      cases us with
      | nil =>
        cases heq
        exact absurd mem_cons_self hxs
      | cons u us =>
        rw [cons_append, cons_append, cons.injEq] at heq
        obtain ⟨rfl, hrest⟩ := ih (fun hc => hxs (mem_cons_of_mem _ hc)) (fun hc => hus (mem_cons_of_mem _ hc))
          heq.2
        exact ⟨by rw [heq.1], hrest⟩
  have hlifecycle (l : Lifecycle) : '\x00' ∉ l.text.toList := by cases l <;> decide
  have htext (pe : ProjectedEntry) : (groupKey pe).toList =
      pe.ansName.toList ++ '\x00' :: (pe.logID.toList ++ '\x00' :: pe.lifecycle.text.toList) := by
    simp [groupKey]
  have hlists := congrArg String.toList h
  rw [htext, htext] at hlists
  obtain ⟨_, hrest⟩ := hsplit ha hb hlists
  -- the lifecycle holds no separator either, so the log ids end at the last one
  have hreversed := congrArg reverse hrest
  rw [reverse_append, reverse_append, reverse_cons, reverse_cons, append_assoc,
    append_assoc] at hreversed
  have hids := hsplit (by simpa using hlifecycle a.lifecycle) (by simpa using hlifecycle b.lifecycle) hreversed
  exact String.toList_inj.mp (reverse_inj.mp hids.2)

/-! ### The rows of a name -/

namespace Store

/-- The rows of a name, without their ids. -/
def listings (s : Store) (name : String) : List Listing := (s.entries.map Row.listing).filter (·.ansName = name)

variable {s : Store} {name : String}

theorem mem_listings {l : Listing} : l ∈ s.listings name ↔ (∃ r ∈ s.entries, r.listing = l) ∧ l.ansName = name := by
  simp [listings, mem_filter, mem_map]

theorem listings_deleteAllForAnsName (s : Store) (ansName name : String) :
    (s.deleteAllForAnsName ansName).listings name = if name = ansName then [] else s.listings name := by
  have hentries : (s.deleteAllForAnsName ansName).listings name =
      ((s.entries.map Row.listing).filter (·.ansName ≠ ansName)).filter (·.ansName = name) := by
    have hrows : (s.deleteAllForAnsName ansName).entries = s.entries.filter (·.listing.ansName ≠ ansName) := rfl
    unfold listings
    rw [hrows, filter_map (p := fun l : Listing => decide (l.ansName ≠ ansName))]
    rfl
  rw [hentries, filter_filter]
  split
  · rename_i hname
    simp [hname]
  · rename_i hname
    unfold listings
    apply filter_congr
    intro l _
    by_cases hl : l.ansName = name <;> simp [hl, hname]

theorem insertActiveRow_ok (h : ∀ r ∈ s.entries, r.listing.key ≠ (Listing.ofEntry pe).key) :
    ∃ t, s.insertActiveRow pe = .ok t ∧ t.cursor = s.cursor ∧
      t.entries.map Row.listing = s.entries.map Row.listing ++ [Listing.ofEntry pe] := by
  have hkey : (Listing.ofEntry pe).key ∉ s.entries.map fun r => r.listing.key := by
    intro hmem
    obtain ⟨r, hr, hsame⟩ := mem_map.mp hmem
    exact h r hr hsame
  unfold insertActiveRow
  simp only
  rw [dif_neg hkey]
  exact ⟨_, rfl, rfl, by simp⟩

/-- Entries with places of their own, where no row has one of their keys. -/
theorem insertActiveRows_ok {pes : List ProjectedEntry} (hnodup : (pes.map ProjectedEntry.place).Nodup)
    (hfresh : ∀ l ∈ s.entries.map Row.listing, ∀ pe ∈ pes, l.key ≠ (Listing.ofEntry pe).key) :
    ∃ t, pes.foldlM insertActiveRow s = .ok t ∧ t.cursor = s.cursor ∧
      t.entries.map Row.listing = s.entries.map Row.listing ++ pes.map Listing.ofEntry := by
  induction pes generalizing s with
  | nil => exact ⟨s, rfl, rfl, by simp⟩
  | cons pe rest ih =>
    obtain ⟨hplace, hrest⟩ := nodup_cons.mp hnodup
    have hnew (r : Row) (hr : r ∈ s.entries) : r.listing.key ≠ (Listing.ofEntry pe).key :=
      hfresh r.listing (mem_map_of_mem hr) pe mem_cons_self
    obtain ⟨u, hu, hucursor, huentries⟩ := insertActiveRow_ok hnew
    have hfresh' : ∀ l ∈ u.entries.map Row.listing, ∀ x ∈ rest, l.key ≠ (Listing.ofEntry x).key := by
      intro l hl x hx hkey
      rw [huentries] at hl
      rcases mem_append.mp hl with hold | hown
      · exact hfresh l hold x (mem_cons_of_mem _ hx) hkey
      · rw [mem_singleton.mp hown] at hkey
        exact hplace (mem_map.mpr ⟨x, hx, (Prod.mk.inj hkey).2.symm⟩)
    obtain ⟨t, ht, htcursor, htentries⟩ := ih hrest hfresh'
    refine ⟨t, ?_, htcursor.trans hucursor, ?_⟩
    · rw [foldlM_cons, hu]
      exact ht
    · rw [htentries, huentries]
      simp

theorem tombstonedAtOrAfter_eq (s : Store) (ansName createdAt : String) : s.tombstonedAtOrAfter ansName createdAt =
    (s.listings ansName).any fun l => l.lifecycle ≠ .active ∧ createdAt ≤ l.createdAt := by
  unfold tombstonedAtOrAfter listings
  rw [any_filter, any_map]
  apply congrArg (any s.entries)
  funext r
  by_cases hname : r.listing.ansName = ansName <;> simp [hname]

/-- The entries of a group become the rows of its name, unless a tombstone is no older. -/
theorem replaceActiveSet_ok (s : Store) {grp : EventGroup} (hname : ∀ pe ∈ grp.entries, pe.ansName = grp.ansName) :
    ∃ t, s.replaceActiveSet grp = .ok t ∧ t.cursor = s.cursor ∧ ∀ name, t.listings name =
      if name = grp.ansName ∧ s.tombstonedAtOrAfter grp.ansName grp.createdAt = false
      then (dedupByTypeURL grp.entries).map Listing.ofEntry else s.listings name := by
  unfold replaceActiveSet
  cases htombstoned : s.tombstonedAtOrAfter grp.ansName grp.createdAt with
  | true => exact ⟨s, rfl, rfl, fun name => by simp⟩
  | false =>
    obtain ⟨hnodup, hmem, _⟩ := dedupByTypeURL_spec grp.entries
    have hnames : ∀ pe ∈ dedupByTypeURL grp.entries, pe.ansName = grp.ansName := fun pe hpe => hname pe (hmem pe hpe)
    have hgone := s.listings_deleteAllForAnsName grp.ansName
    have hfresh : ∀ l ∈ (s.deleteAllForAnsName grp.ansName).entries.map Row.listing,
        ∀ pe ∈ dedupByTypeURL grp.entries, l.key ≠ (Listing.ofEntry pe).key := by
      intro l hl pe hpe hkey
      have hansName : l.ansName = grp.ansName := (Prod.mk.inj hkey).1.trans (hnames pe hpe)
      obtain ⟨r, hr, hlisting⟩ := mem_map.mp hl
      have hnothing := mem_listings.mpr ⟨⟨r, hr, hlisting⟩, hansName⟩
      rw [hgone, if_pos rfl] at hnothing
      cases hnothing
    obtain ⟨t, ht, hcursor, hentries⟩ := insertActiveRows_ok hnodup hfresh
    refine ⟨t, ht, hcursor, ?_⟩
    intro name
    have hnew : ((dedupByTypeURL grp.entries).map Listing.ofEntry).filter (·.ansName = name) =
        if name = grp.ansName then (dedupByTypeURL grp.entries).map Listing.ofEntry else [] := by
      split
      · rename_i hsame
        rw [filter_eq_self]
        intro l hl
        obtain ⟨pe, hpe, rfl⟩ := mem_map.mp hl
        exact decide_eq_true ((hnames pe hpe).trans hsame.symm)
      · rename_i hother
        rw [filter_eq_nil_iff]
        intro l hl hsame
        obtain ⟨pe, hpe, rfl⟩ := mem_map.mp hl
        exact hother ((of_decide_eq_true hsame).symm.trans (hnames pe hpe))
    have hold := hgone name
    unfold listings at hold ⊢
    rw [hentries, filter_append, hold, hnew]
    by_cases hsame : name = grp.ansName <;> simp [hsame]

theorem listings_applyTombstone (s : Store) (pe : ProjectedEntry) (name : String) :
    (s.applyTombstone pe).2.listings name =
      (s.listings name).map fun l => if l.suppressible pe then l.suppress pe else l := by
  have hlistings : (s.applyTombstone pe).2.entries.map Row.listing =
      (s.entries.map Row.listing).map fun l => if l.suppressible pe then l.suppress pe else l := by
    unfold applyTombstone
    simp only [map_map]
    apply map_congr_left
    intro r _
    simp only [Function.comp_apply]
    split <;> rfl
  unfold listings
  rw [hlistings, filter_map]
  apply congrArg
  apply filter_congr
  intro l _
  simp only [Function.comp_apply]
  split <;> rfl

end Store

/-! ### The standing of a name -/

/-- The rows of a name show its standing in the feed. -/
def Shows (σ : Standing String (List Listing)) (ls : List Listing) : Prop :=
  match σ with
  | .absent => ls = []
  | .listed createdAt content => ls = content ∧ content ≠ [] ∧ ∀ l ∈ content, l.lifecycle = .active ∧ l.createdAt = createdAt
  | .buried createdAt => ls ≠ [] ∧ ∀ l ∈ ls, l.lifecycle ≠ .active ∧ l.createdAt = createdAt

/-- What a group of entries is to its name. -/
def EventGroup.event (g : EventGroup) : Event String (List Listing) :=
  match g.lifecycle with
  | .active => .set g.createdAt ((dedupByTypeURL g.entries).map Listing.ofEntry)
  | .revoked | .deprecated => .bury g.createdAt

/-- What a group of entries is to any name. -/
def EventGroup.eventFor (g : EventGroup) (name : String) : Event String (List Listing) :=
  if g.ansName = name then g.event else .skip

/-- The entries of a group are those of one event. -/
structure EventGroup.Uniform (g : EventGroup) : Prop where
  ansName : ∀ pe ∈ g.entries, pe.ansName = g.ansName
  createdAt : ∀ pe ∈ g.entries, pe.createdAt = g.createdAt

theorem tombstonedAtOrAfter_of_shows {s : Store} {name : String} (createdAt : String)
    {σ : Standing String (List Listing)}
    (h : Shows σ (s.listings name)) : s.tombstonedAtOrAfter name createdAt = true ↔ ∃ t, σ = .buried t ∧ createdAt ≤ t := by
  rw [Store.tombstonedAtOrAfter_eq, any_eq_true]
  cases σ with
  | absent =>
    rw [h]
    constructor
    · rintro ⟨l, hl, _⟩
      cases hl
    · rintro ⟨t, ht, _⟩
      cases ht
  | listed a x =>
    obtain ⟨hsame, _, hactive⟩ := h
    rw [hsame]
    constructor
    · rintro ⟨l, hl, hnot⟩
      exact absurd (hactive l hl).1 (of_decide_eq_true hnot).1
    · rintro ⟨t, ht, _⟩
      cases ht
  | buried t =>
    obtain ⟨hne, hburied⟩ := h
    constructor
    · rintro ⟨l, hl, hnot⟩
      rw [← (hburied l hl).2]
      exact ⟨_, rfl, (of_decide_eq_true hnot).2⟩
    · rintro ⟨t', ht', hle⟩
      cases ht'
      obtain ⟨l, hl⟩ := exists_mem_of_ne_nil _ hne
      refine ⟨l, hl, decide_eq_true ⟨(hburied l hl).1, ?_⟩⟩
      rw [(hburied l hl).2]
      exact hle

theorem shows_set (hg : g.Uniform) : Shows (.listed g.createdAt ((dedupByTypeURL g.entries).map Listing.ofEntry))
      ((dedupByTypeURL g.entries).map Listing.ofEntry) := by
  obtain ⟨_, hmem, hnil⟩ := dedupByTypeURL_spec g.entries
  refine ⟨rfl, ?_, ?_⟩
  · intro hempty
    exact absurd (hnil (map_eq_nil_iff.mp hempty)) (cons_ne_nil _ _)
  · intro l hl
    obtain ⟨pe, hpe, rfl⟩ := mem_map.mp hl
    exact ⟨rfl, hg.createdAt pe (hmem pe hpe)⟩

/-- Burying the rows of a name. -/
theorem shows_bury (hlifecycle : pe.lifecycle ≠ .active) {σ : Standing String (List Listing)}
    {ls : List Listing} (hname : ∀ l ∈ ls, l.ansName = pe.ansName) (h : Shows σ ls) :
    Shows (σ.step (.bury pe.createdAt)) (ls.map fun l => if l.suppressible pe then l.suppress pe else l) := by
  cases σ with
  | absent =>
    rw [h]
    rfl
  | buried t =>
    have hkept : (ls.map fun l => if l.suppressible pe then l.suppress pe else l) = ls := by
      conv_rhs => rw [← map_id ls]
      apply map_congr_left
      intro l hl
      exact if_neg fun hs => (h.2 l hl).1 (of_decide_eq_true hs).2.1
    rw [hkept]
    exact h
  | listed a x =>
    obtain ⟨rfl, hne, hactive⟩ := h
    by_cases hle : a ≤ pe.createdAt
    · have hburied : (ls.map fun l => if l.suppressible pe then l.suppress pe else l) = ls.map (Listing.suppress pe) := by
        apply map_congr_left
        intro l hl
        obtain ⟨hl_active, hl_created⟩ := hactive l hl
        exact if_pos (decide_eq_true ⟨hname l hl, hl_active, hl_created ▸ hle⟩)
      rw [hburied, Standing.step, if_pos hle]
      refine ⟨by simpa using hne, ?_⟩
      intro l hl
      obtain ⟨old, _, rfl⟩ := mem_map.mp hl
      exact ⟨hlifecycle, rfl⟩
    · have hkept : (ls.map fun l => if l.suppressible pe then l.suppress pe else l) = ls := by
        conv_rhs => rw [← map_id ls]
        apply map_congr_left
        intro l hl
        refine if_neg fun hs => hle ?_
        rw [← (hactive l hl).2]
        exact (of_decide_eq_true hs).2.2
      rw [hkept, Standing.step, if_neg hle]
      exact ⟨rfl, hne, hactive⟩

/-- A group does to its name what its event does, and nothing to other names. -/
theorem applyGroup_shows (s : Store) (hg : g.Uniform) :
    ∃ noOps t, s.applyGroup g = .ok (noOps, t) ∧ t.cursor = s.cursor ∧ ∀ name σ, Shows σ (s.listings name) →
      Shows (σ.step (g.eventFor name)) (t.listings name) := by
  have hbury (hlifecycle : g.first.lifecycle ≠ .active) (name : String) (σ : Standing String (List Listing))
      (hσ : Shows σ (s.listings name)) : Shows (σ.step (if g.ansName = name then .bury g.createdAt else .skip))
        ((s.applyTombstone g.first).2.listings name) := by
    rw [s.listings_applyTombstone]
    split
    · rename_i hname
      refine shows_bury hlifecycle ?_ hσ
      intro l hl
      exact (Store.mem_listings.mp hl).2.trans hname.symm
    · rename_i hname
      have hkept : ((s.listings name).map fun l => if l.suppressible g.first then l.suppress g.first else l) =
          s.listings name := by
        conv_rhs => rw [← map_id (s.listings name)]
        apply map_congr_left
        intro l hl
        refine if_neg fun hs => hname ?_
        exact (of_decide_eq_true hs).1.symm.trans (Store.mem_listings.mp hl).2
      rw [hkept, step_skip]
      exact hσ
  unfold Store.applyGroup EventGroup.eventFor EventGroup.event
  cases hlifecycle : g.lifecycle with
  | active =>
    obtain ⟨t, ht, hcursor, hlistings⟩ := s.replaceActiveSet_ok hg.ansName
    refine ⟨[], t, by rw [ht]; rfl, hcursor, ?_⟩
    intro name σ hσ
    rw [hlistings]
    by_cases hname : g.ansName = name
    · subst hname
      have htombstoned := tombstonedAtOrAfter_of_shows g.createdAt hσ
      simp only [if_true, true_and]
      cases htomb : s.tombstonedAtOrAfter g.ansName g.createdAt with
      | true =>
        obtain ⟨t, rfl, hle⟩ := htombstoned.mp htomb
        rw [Standing.step, if_pos hle]
        simpa using hσ
      | false =>
        have hstep : σ.step (.set g.createdAt ((dedupByTypeURL g.entries).map Listing.ofEntry)) =
            .listed g.createdAt ((dedupByTypeURL g.entries).map Listing.ofEntry) := by
          cases σ with
          | absent | listed => rfl
          | buried t =>
            refine if_neg fun hle => ?_
            rw [htombstoned.mpr ⟨t, rfl, hle⟩] at htomb
            cases htomb
        rw [hstep, if_pos rfl]
        exact shows_set hg
    · have hother : ¬name = g.ansName := fun h => hname h.symm
      simp only [hname, hother, if_false, false_and, step_skip]
      exact hσ
  | revoked | deprecated =>
    refine ⟨_, _, rfl, rfl, hbury ?_⟩
    change g.lifecycle ≠ _
    rw [hlifecycle]
    decide

theorem applyGroups_shows (hgroups : ∀ g ∈ groups, g.Uniform) (s : Store) :
    ∃ noOps t, s.applyGroups groups = .ok (noOps, t) ∧ t.cursor = s.cursor ∧ ∀ name σ, Shows σ (s.listings name) →
      Shows (run σ (groups.map fun g => g.eventFor name)) (t.listings name) := by
  induction groups generalizing s with
  | nil => exact ⟨[], s, rfl, rfl, fun _ _ hσ => hσ⟩
  | cons g rest ih =>
    obtain ⟨noOps, t, ht, htcursor, hstep⟩ := applyGroup_shows s (hgroups g mem_cons_self)
    obtain ⟨more, u, hu, hucursor, hrest⟩ := ih (fun x hx => hgroups x (mem_cons_of_mem _ hx)) t
    refine ⟨noOps ++ more, u, ?_, hucursor.trans htcursor, ?_⟩
    · unfold Store.applyGroups
      rw [ht]
      change (t.applyGroups rest >>= fun next => pure (noOps ++ next.1, next.2)) = _
      rw [hu]
      rfl
    · intro name σ hσ
      exact hrest name _ (hstep name σ hσ)

/-! ### The items of a page -/

section Items

variable {P : Primitives} {opts : Options} {item : EventItem}

/-- The group that an item makes in a page. -/
def groupOf (P : Primitives) (opts : Options) (item : EventItem) : Option EventGroup :=
  (fromEvent P item opts).toOption.bind fun projection => EventGroup.ofEntries projection.entries

/-- What an item is to a name. -/
def eventFor (P : Primitives) (opts : Options) (name : String) (item : EventItem) : Event String (List Listing) :=
  match groupOf P opts item with
  | none => .skip
  | some g => g.eventFor name

theorem groupOf_entries (h : groupOf P opts item = some g) :
    ∃ projection, fromEvent P item opts = .ok projection ∧ projection.entries = g.entries := by
  unfold groupOf at h
  cases hprojection : fromEvent P item opts with
  | error text =>
    rw [hprojection] at h
    cases h
  | ok projection =>
    rw [hprojection] at h
    change EventGroup.ofEntries projection.entries = some g at h
    refine ⟨projection, rfl, ?_⟩
    cases hentries : projection.entries with
    | nil =>
      rw [hentries] at h
      cases h
    | cons pe rest =>
      rw [hentries] at h
      cases h
      rfl

theorem groupOf_uniform (h : groupOf P opts item = some g) :
    g.Uniform ∧ g.first.logID = item.logID ∧ g.ansName = item.ansName ∧ g.createdAt = item.createdAt ∧
      lifecycleOf item.eventType = some g.lifecycle := by
  obtain ⟨projection, hprojection, hentries⟩ := groupOf_entries h
  have hwrapped (pe : ProjectedEntry) (hpe : pe ∈ g.entries) :
      ∃ lifecycle entry, lifecycleOf item.eventType = some lifecycle ∧ pe = wrap item lifecycle entry :=
    fromEvent_entries hprojection (hentries ▸ hpe)
  have hfirst := hwrapped g.first mem_cons_self
  obtain ⟨lifecycle, entry, hlifecycle, hg⟩ := hfirst
  have hname : g.ansName = item.ansName := congrArg ProjectedEntry.ansName hg
  have hcreated : g.createdAt = item.createdAt := congrArg ProjectedEntry.createdAt hg
  refine ⟨⟨?_, ?_⟩, congrArg ProjectedEntry.logID hg, hname, hcreated, ?_⟩
  · intro pe hpe
    obtain ⟨_, _, _, rfl⟩ := hwrapped pe hpe
    exact hname.symm
  · intro pe hpe
    obtain ⟨_, _, _, rfl⟩ := hwrapped pe hpe
    exact hcreated.symm
  · rw [hlifecycle]
    exact congrArg some (congrArg ProjectedEntry.lifecycle hg).symm

/-- An item that can be projected. -/
def Projects (P : Primitives) (opts : Options) (item : EventItem) : Prop :=
  ∃ projection, fromEvent P item opts = .ok projection

theorem Projects.keys (h : Projects P opts item) : item.logID ≠ "" ∧ '\x00' ∉ item.ansName.toList := by
  obtain ⟨projection, h⟩ := h
  rw [fromEvent_eq] at h
  obtain ⟨_, hkeys, _⟩ := bind_eq_ok_iff.mp h
  unfold EventItem.validateIdentityKeys at hkeys
  obtain ⟨_, hlogID, hkeys⟩ := bind_eq_ok_iff.mp hkeys
  obtain ⟨_, _, hkeys⟩ := bind_eq_ok_iff.mp hkeys
  obtain ⟨_, _, hkeys⟩ := bind_eq_ok_iff.mp hkeys
  obtain ⟨parsed, hparsed, _⟩ := bind_eq_ok_iff.mp hkeys
  refine ⟨?_, Registration.null_not_mem_of_parseAnsName (mapError_eq_ok_iff.mp hparsed)⟩
  intro hempty
  rw [hempty] at hlogID
  exact require_eq_ok_iff.mp hlogID rfl

theorem projectItems_cons_ok {rest : List EventItem} {projections : List Projection} :
    projectItems P opts (item :: rest) = .ok projections ↔ ∃ projection more,
      fromEvent P item opts = .ok projection ∧ projectItems P opts rest = .ok more ∧ projections = projection :: more := by
  rw [projectItems]
  simp only [bind_eq_ok_iff, withContext_eq_ok_iff, pure_eq_ok_iff]
  constructor
  · rintro ⟨projection, hprojection, more, hmore, rfl⟩
    exact ⟨projection, more, hprojection, hmore, rfl⟩
  · rintro ⟨projection, more, hprojection, hmore, rfl⟩
    exact ⟨projection, hprojection, more, hmore, rfl⟩

theorem projectItems_ok_iff {items : List EventItem} :
    (∃ projections, projectItems P opts items = .ok projections) ↔ ∀ item ∈ items, Projects P opts item := by
  induction items with
  | nil => exact ⟨fun _ => nofun, fun _ => ⟨[], rfl⟩⟩
  | cons item rest ih =>
    rw [forall_mem_cons, ← ih]
    constructor
    · rintro ⟨projections, h⟩
      obtain ⟨projection, more, hprojection, hmore, _⟩ := projectItems_cons_ok.mp h
      exact ⟨⟨projection, hprojection⟩, more, hmore⟩
    · rintro ⟨⟨projection, hprojection⟩, more, hmore⟩
      exact ⟨projection :: more, projectItems_cons_ok.mpr ⟨projection, more, hprojection, hmore, rfl⟩⟩

/-- The groups of a page are those of its items, in their order. -/
theorem foldl_addToGroups_items {items : List EventItem} {projections : List Projection}
    (h : projectItems P opts items = .ok projections) (hdistinct : (items.map EventItem.logID).Nodup)
    (hgroups : ∀ g ∈ groups, '\x00' ∉ g.first.ansName.toList ∧ ∀ item ∈ items, g.first.logID ≠ item.logID) :
    (projections.flatMap Projection.entries).foldl addToGroups groups = groups ++ items.filterMap (groupOf P opts) := by
  induction items generalizing projections groups with
  | nil =>
    cases h
    simp
  | cons item rest ih =>
    obtain ⟨projection, more, hprojection, hmore, rfl⟩ := projectItems_cons_ok.mp h
    obtain ⟨hnew, hrest⟩ := nodup_cons.mp hdistinct
    have hgroup : groupOf P opts item = EventGroup.ofEntries projection.entries := by
      unfold groupOf
      rw [hprojection]
      rfl
    have hkeys := Projects.keys ⟨projection, hprojection⟩
    have hitem (pe : ProjectedEntry) (hpe : pe ∈ projection.entries) : ∃ lifecycle entry,
        lifecycleOf item.eventType = some lifecycle ∧ pe = wrap item lifecycle entry := fromEvent_entries hprojection hpe
    -- the entries of the item make one group of their own
    have hone : projection.entries.foldl addToGroups groups = groups ++ (groupOf P opts item).toList := by
      rw [hgroup]
      cases hentries : projection.entries with
      | nil => simp [EventGroup.ofEntries]
      | cons pe others =>
        obtain ⟨lifecycle, entry, hlifecycle, rfl⟩ := hitem pe (hentries ▸ mem_cons_self)
        apply foldl_addToGroups_event (groupKey (wrap item lifecycle entry))
        · intro g hg hsame
          exact (hgroups g hg).2 item mem_cons_self (logID_eq_of_groupKey_eq (hgroups g hg).1 hkeys.2 hsame)
        · intro x hx
          obtain ⟨lifecycle', entry', hlifecycle', rfl⟩ := hitem x (hentries ▸ hx)
          rw [hlifecycle] at hlifecycle'
          cases hlifecycle'
          rfl
    have hgroups' : ∀ g ∈ groups ++ (groupOf P opts item).toList, '\x00' ∉ g.first.ansName.toList ∧
        ∀ x ∈ rest, g.first.logID ≠ x.logID := by
      intro g hg
      rcases mem_append.mp hg with hold | hown
      · exact ⟨(hgroups g hold).1, fun x hx => (hgroups g hold).2 x (mem_cons_of_mem _ hx)⟩
      · obtain ⟨_, hlogID, hname, _⟩ := groupOf_uniform (Option.mem_toList.mp hown)
        refine ⟨?_, ?_⟩
        · rw [show g.first.ansName = item.ansName from hname]
          exact hkeys.2
        · intro x hx hsame
          exact hnew (mem_map.mpr ⟨x, hx, hsame.symm.trans hlogID⟩)
    rw [flatMap_cons, foldl_append, hone, ih hmore hrest hgroups', append_assoc, filterMap_cons]
    cases groupOf P opts item <;> rfl

theorem run_eventFor (name : String) (σ : Standing String (List Listing)) (items : List EventItem) :
    run σ (items.map (eventFor P opts name)) =
      run σ ((items.filterMap (groupOf P opts)).map fun g => g.eventFor name) := by
  induction items generalizing σ with
  | nil => rfl
  | cons item rest ih =>
    rw [map_cons, run_cons, ih, filterMap_cons]
    unfold eventFor
    cases groupOf P opts item with
    | none => rw [step_skip]
    | some g => rfl

/-- A page of items that project is applied, and to every name it does what its items do. -/
theorem applyPage_shows {page : EventPageResponse} (hprojects : ∀ item ∈ page.items, Projects P opts item)
    (hdistinct : (page.items.map EventItem.logID).Nodup) (s : Store) :
    ∃ applied report t, applyPage P opts s page = .ok (applied, report, t) ∧ t.cursor = s.cursor ∧
      ∀ name σ, Shows σ (s.listings name) →
        Shows (run σ (page.items.map (eventFor P opts name))) (t.listings name) := by
  obtain ⟨projections, hprojections⟩ := projectItems_ok_iff.mpr hprojects
  have hgroups : groupByEvent (projections.flatMap Projection.entries) = page.items.filterMap (groupOf P opts) := by
    unfold groupByEvent
    rw [foldl_addToGroups_items hprojections hdistinct (forall_mem_nil _)]
    rfl
  have huniform (g : EventGroup) (hg : g ∈ page.items.filterMap (groupOf P opts)) : g.Uniform := by
    obtain ⟨item, _, hitem⟩ := mem_filterMap.mp hg
    exact (groupOf_uniform hitem).1
  obtain ⟨report, t, ht, hcursor, hshows⟩ := applyGroups_shows huniform s
  refine ⟨(projections.flatMap Projection.entries).length, report, t, ?_, hcursor, ?_⟩
  · unfold applyPage
    rw [hprojections]
    have happly : s.apply (projections.flatMap Projection.entries) = .ok (report, t) := by
      unfold Store.apply
      rw [hgroups]
      exact ht
    simp only [bind_eq_ok_iff, withContext_eq_ok_iff, pure_eq_ok_iff]
    exact ⟨projections, rfl, (report, t), happly, rfl⟩
  · intro name σ hσ
    rw [run_eventFor]
    exact hshows name σ hσ

theorem projects_of_applyPage {page : EventPageResponse} {s : Store} {result : Nat × List Store.TombstoneNoOp × Store}
    (h : applyPage P opts s page = .ok result) : ∀ item ∈ page.items, Projects P opts item := by
  unfold applyPage at h
  obtain ⟨projections, hprojections, _⟩ := bind_eq_ok_iff.mp h
  exact projectItems_ok_iff.mp ⟨projections, hprojections⟩

end Items

end AgentNameService.Finder
