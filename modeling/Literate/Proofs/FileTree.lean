import Mathlib.Data.List.Basic
import Literate.FileTree
import Literate.Proofs.Path

/-!
# Files beside the one that is written

Putting something at a place changes what is there and nothing else (`at?_put`). A path that leads
to another place goes on doing so when only what no way leads on from changes, that is neither a
directory nor a link, since the way to it cannot lead through that place (`Leads.of_agree`). So
whoever creates an output can still open all inputs that could be opened before and are not the
output itself (`openAt_put`), and the output can be opened by the path it was created with
(`openAt_of_create`, `openAt_put_same`). What was in a file before it was created anew makes no
difference (`create_put`).

A file that was put where there was nothing leaves no trace once it is removed by its path
(`remove_put`). Links may take a path anywhere, but what it names has the last of its names
(`exists_place_of_locate`).
-/

namespace Literate.FileTree

variable {t : FileTree} {place : Place}

/-! ### Putting and looking -/

theorem lookup_map_put (entries : List (Place × Entry)) (entry : Entry) (other : Place) :
    (entries.map fun e => if e.1 = place then (place, entry) else e).lookup other =
      if other = place then (entries.lookup place).map fun _ => entry
      else entries.lookup other := by
  induction entries with
  | nil => split <;> rfl
  | cons e entries ih =>
      obtain ⟨here, old⟩ := e
      rw [List.map_cons]
      by_cases hhere : here = place
      · subst hhere
        rw [if_pos rfl, List.lookup_cons, ih, List.lookup_cons, List.lookup_cons]
        by_cases hother : other = here
        · simp [hother]
        · simp [hother, beq_false_of_ne hother]
      · rw [if_neg hhere, List.lookup_cons, ih, List.lookup_cons, List.lookup_cons,
          beq_false_of_ne (Ne.symm hhere)]
        by_cases hother : other = here
        · simp [hother, hhere]
        · simp [beq_false_of_ne hother]

theorem isSome_lookup_iff {entries : List (Place × Entry)} :
    (entries.lookup place).isSome ↔ ∃ e ∈ entries, e.1 = place := by
  rw [List.lookup_isSome_iff]
  constructor
  · rintro ⟨e, he, heq⟩
    exact ⟨e, he, (eq_of_beq heq).symm⟩
  · rintro ⟨e, he, rfl⟩
    exact ⟨e, he, BEq.rfl⟩

/-- **What is put at a place is there, and all else stays.** -/
theorem at?_put (hplace : place ≠ []) (entry : Entry) (other : Place) :
    (t.put place entry).at? other = if other = place then some entry else t.at? other := by
  by_cases hroot : other = []
  · rw [if_neg (fun h => hplace (h.symm.trans hroot)), hroot]
    rfl
  · have hlook (u : FileTree) : u.at? other = u.entries.lookup other := by
      rw [at?, if_neg]
      rwa [List.isEmpty_iff]
    rw [hlook, hlook, put]
    split
    · next hany =>
      have hsome : (t.entries.lookup place).isSome := by
        rw [isSome_lookup_iff]
        simpa using hany
      obtain ⟨old, hold⟩ := Option.isSome_iff_exists.mp hsome
      rw [lookup_map_put, hold]
      rfl
    · next hany =>
      have hnone : t.entries.lookup place = none := by
        rw [← Option.not_isSome_iff_eq_none, isSome_lookup_iff]
        simpa using hany
      rw [List.lookup_append]
      by_cases hother : other = place
      · subst hother
        simp [hnone]
      · rw [if_neg hother, List.lookup_cons, beq_false_of_ne hother]
        exact Option.or_none

theorem at?_put_self (hplace : place ≠ []) (entry : Entry) :
    (t.put place entry).at? place = some entry := by
  rw [at?_put hplace, if_pos rfl]

theorem at?_put_of_ne (hplace : place ≠ []) (entry : Entry) {other : Place} (h : other ≠ place) :
    (t.put place entry).at? other = t.at? other := by
  rw [at?_put hplace, if_neg h]

theorem put_of_mem (h : ∃ e ∈ t.entries, e.1 = place) (entry : Entry) :
    t.put place entry = ⟨t.entries.map fun e => if e.1 = place then (place, entry) else e⟩ := by
  rw [put, if_pos]
  rw [List.any_eq_true]
  obtain ⟨e, he, heq⟩ := h
  exact ⟨e, he, decide_eq_true heq⟩

theorem put_of_forall_ne (h : ∀ e ∈ t.entries, e.1 ≠ place) (entry : Entry) :
    t.put place entry = ⟨t.entries ++ [(place, entry)]⟩ := by
  rw [put, if_neg]
  rw [List.any_eq_true]
  rintro ⟨e, he, heq⟩
  exact h e he (of_decide_eq_true heq)

/-- Only what is put last at a place counts. -/
theorem put_put (first second : Entry) :
    (t.put place first).put place second = t.put place second := by
  by_cases h : ∃ e ∈ t.entries, e.1 = place
  · have hagain : ∃ e ∈ (t.put place first).entries, e.1 = place := by
      obtain ⟨e, he, heq⟩ := h
      rw [put_of_mem ⟨e, he, heq⟩]
      exact ⟨(place, first), List.mem_map.mpr ⟨e, he, if_pos heq⟩, rfl⟩
    rw [put_of_mem hagain, put_of_mem h, put_of_mem h, mk.injEq, List.map_map]
    apply List.map_congr_left
    intro e _
    by_cases he : e.1 = place <;> simp [he]
  · have hfree : ∀ e ∈ t.entries, e.1 ≠ place := fun e he heq => h ⟨e, he, heq⟩
    have hagain : ∃ e ∈ (t.put place first).entries, e.1 = place := by
      rw [put_of_forall_ne hfree]
      exact ⟨(place, first), by simp, rfl⟩
    rw [put_of_mem hagain, put_of_forall_ne hfree, put_of_forall_ne hfree, mk.injEq,
      List.map_append, List.map_congr_left fun e he => if_neg (hfree e he), List.map_id']
    simp

theorem ne_nil_of_at? (h : t.at? place ≠ some .directory) : place ≠ [] := by
  rintro rfl
  exact h rfl

/-- **What is put where there was nothing leaves no trace once it is erased.** -/
theorem erase_put (h : t.at? place = none) (entry : Entry) :
    (t.put place entry).erase place = t := by
  have hroot : place ≠ [] := ne_nil_of_at? (by rw [h]; nofun)
  have hfree : ∀ e ∈ t.entries, e.1 ≠ place := by
    rw [at?, if_neg (by rwa [List.isEmpty_iff]), ← Option.not_isSome_iff_eq_none,
      isSome_lookup_iff] at h
    exact fun e he heq => h ⟨e, he, heq⟩
  rw [put_of_forall_ne hfree, erase, List.filter_append,
    List.filter_eq_self.mpr (by simpa using hfree)]
  simp

/-! ### Paths -/

/-- A way can lead on from here. -/
def LeadsOn (entry : Option Entry) : Prop := entry = some .directory ∨ entry.any Entry.isLink

theorem not_leadsOn_none : ¬LeadsOn none := by simp [LeadsOn]

theorem not_leadsOn_file (contents : Bytes) : ¬LeadsOn (some (.file contents)) := by
  simp [LeadsOn, Entry.isLink]

theorem not_leadsOn_put (hplace : place ≠ []) (contents : Bytes) :
    ¬LeadsOn ((t.put place (.file contents)).at? place) := by
  rw [at?_put_self hplace]
  exact not_leadsOn_file contents

theorem ne_nil_of_not_leadsOn (h : ¬LeadsOn (t.at? place)) : place ≠ [] :=
  ne_nil_of_at? fun hdir => h (.inl hdir)

/-- The name is one of something that may be in this directory. -/
structure Enters (t : FileTree) (start : Place) (name : Bytes) : Prop where
  directory : t.at? start = some .directory
  ne_here : name ≠ Path.here
  ne_above : name ≠ Path.above
  length_le : name.length ≤ nameLimit

/-- Where names lead from a place if so many links may be followed, one rule for each way to take a
name. -/
inductive Leads (t : FileTree) (last : Bool) : Nat → Place → List Bytes → Spot → Prop
  | stop {links start} : ¬(t.at? start).any Entry.isLink →
      Leads t last links start [] ⟨start, t.at? start⟩
  | stay {links start name names spot} : t.at? start = some .directory → name = Path.here →
      Leads t last links start names spot → Leads t last links start (name :: names) spot
  | up {links start name names spot} : t.at? start = some .directory → name ≠ Path.here →
      name = Path.above → Leads t last links start.dropLast names spot →
      Leads t last links start (name :: names) spot
  | down {links start name names spot entry} : t.Enters start name →
      t.at? (start ++ [name]) = some entry → ¬entry.isLink →
      Leads t last links (start ++ [name]) names spot → Leads t last links start (name :: names) spot
  | missing {links start name} : t.Enters start name → t.at? (start ++ [name]) = none →
      Leads t last links start [name] ⟨start ++ [name], none⟩
  | named {links start name target} : t.Enters start name →
      t.at? (start ++ [name]) = some (.link target) → last = false →
      Leads t last links start [name] ⟨start ++ [name], some (.link target)⟩
  | follow {links start name names spot target} : t.Enters start name →
      t.at? (start ++ [name]) = some (.link target) → (names = [] → last = true) →
      Leads t last links (linkWay start target).1 ((linkWay start target).2 ++ names) spot →
      Leads t last (links + 1) start (name :: names) spot

section Walk

variable {last : Bool} {onward : Place → List Bytes → Except Refusal Spot} {start : Place}
  {name : Bytes} {names : List Bytes} {target : Bytes}

theorem walkWith_here (hdir : t.at? start = some .directory) (hhere : name = Path.here) :
    t.walkWith last onward start (name :: names) = t.walkWith last onward start names := by
  rw [walkWith, if_neg (not_not_intro hdir), if_pos hhere]

theorem walkWith_above (hdir : t.at? start = some .directory) (hhere : name ≠ Path.here)
    (habove : name = Path.above) :
    t.walkWith last onward start (name :: names) = t.walkWith last onward start.dropLast names := by
  rw [walkWith, if_neg (not_not_intro hdir), if_neg hhere, if_pos habove]

theorem Enters.walkWith_none (h : t.Enters start name) (hnone : t.at? (start ++ [name]) = none) :
    t.walkWith last onward start (name :: names) =
      if names.isEmpty then .ok ⟨start ++ [name], none⟩ else .error .notFound := by
  rw [walkWith, if_neg (not_not_intro h.directory), if_neg h.ne_here, if_neg h.ne_above,
    if_neg (Nat.not_lt.mpr h.length_le), hnone]

theorem Enters.walkWith_link (h : t.Enters start name)
    (hlink : t.at? (start ++ [name]) = some (.link target)) :
    t.walkWith last onward start (name :: names) =
      if names.isEmpty && !last then .ok ⟨start ++ [name], some (.link target)⟩
      else onward (linkWay start target).1 ((linkWay start target).2 ++ names) := by
  rw [walkWith, if_neg (not_not_intro h.directory), if_neg h.ne_here, if_neg h.ne_above,
    if_neg (Nat.not_lt.mpr h.length_le), hlink]

theorem Enters.walkWith_down (h : t.Enters start name) {entry : Entry}
    (hsome : t.at? (start ++ [name]) = some entry) (hlink : ¬entry.isLink) :
    t.walkWith last onward start (name :: names) =
      t.walkWith last onward (start ++ [name]) names := by
  rw [walkWith, if_neg (not_not_intro h.directory), if_neg h.ne_here, if_neg h.ne_above,
    if_neg (Nat.not_lt.mpr h.length_le), hsome]
  cases entry with
  | link target => exact absurd rfl hlink
  | file | directory | device => rfl

end Walk

/-- How the way on from a link is followed if so many links may be. -/
def onward (t : FileTree) (last : Bool) : Nat → Place → List Bytes → Except Refusal Spot
  | 0, _, _ => .error .tooManyLinks
  | links + 1, place, names => t.walk last links place names

theorem walk_eq_walkWith (t : FileTree) (last : Bool) (links : Nat) :
    t.walk last links = t.walkWith last (t.onward last links) := by
  cases links <;> rfl

theorem Leads.walk_eq {last : Bool} {links : Nat} {start : Place} {names : List Bytes} {spot : Spot}
    (h : Leads t last links start names spot) : t.walk last links start names = .ok spot := by
  induction h with
  | stop hlink => rw [walk_eq_walkWith, walkWith, if_neg hlink]
  | stay hdir hhere _ ih => rwa [walk_eq_walkWith, walkWith_here hdir hhere, ← walk_eq_walkWith]
  | up hdir hhere habove _ ih =>
      rwa [walk_eq_walkWith, walkWith_above hdir hhere habove, ← walk_eq_walkWith]
  | down henters hsome hlink _ ih =>
      rwa [walk_eq_walkWith, henters.walkWith_down hsome hlink, ← walk_eq_walkWith]
  | missing henters hnone => rw [walk_eq_walkWith, henters.walkWith_none hnone]; rfl
  | named henters hlink hlast => rw [walk_eq_walkWith, henters.walkWith_link hlink, hlast]; rfl
  | follow henters hlink hlast _ ih =>
      rw [walk_eq_walkWith, henters.walkWith_link hlink, if_neg]
      · exact ih
      · simpa using hlast

/-- Up to the next link the names are taken one by one. -/
theorem leads_of_walkWith {last : Bool} {links : Nat} {spot : Spot}
    (honward : ∀ place names, t.onward last links place names = .ok spot →
      ∃ fewer, links = fewer + 1 ∧ Leads t last fewer place names spot)
    {start : Place} {names : List Bytes}
    (h : t.walkWith last (t.onward last links) start names = .ok spot) :
    Leads t last links start names spot := by
  induction names generalizing start with
  | nil =>
      rw [walkWith] at h
      split at h
      · cases h
      · next hlink =>
        cases h
        exact .stop hlink
  | cons name names ih =>
      by_cases hdir : t.at? start = some .directory
      swap
      · rw [walkWith, if_pos hdir] at h
        cases h
      by_cases hhere : name = Path.here
      · rw [walkWith_here hdir hhere] at h
        exact .stay hdir hhere (ih h)
      by_cases habove : name = Path.above
      · rw [walkWith_above hdir hhere habove] at h
        exact .up hdir hhere habove (ih h)
      by_cases hlength : nameLimit < name.length
      · rw [walkWith, if_neg (not_not_intro hdir), if_neg hhere, if_neg habove, if_pos hlength] at h
        cases h
      have henters : t.Enters start name := ⟨hdir, hhere, habove, Nat.not_lt.mp hlength⟩
      cases hentry : t.at? (start ++ [name]) with
      | none =>
          rw [henters.walkWith_none hentry] at h
          split at h
          · next hnames =>
            cases h
            obtain rfl := List.isEmpty_iff.mp hnames
            exact .missing henters hentry
          · cases h
      | some entry =>
          by_cases hlink : entry.isLink
          · cases entry with
            | link target =>
                rw [henters.walkWith_link hentry] at h
                split at h
                · next hend =>
                  cases h
                  obtain ⟨rfl, rfl⟩ : names = [] ∧ last = false := by simpa using hend
                  exact .named henters hentry rfl
                · next hend =>
                  obtain ⟨fewer, rfl, hrest⟩ := honward _ _ h
                  exact .follow henters hentry (by simpa using hend) hrest
            | file | directory | device => cases hlink
          · rw [henters.walkWith_down hentry hlink] at h
            exact .down henters hentry hlink (ih h)

theorem leads_of_walk {last : Bool} {links : Nat} {start : Place} {names : List Bytes} {spot : Spot}
    (h : t.walk last links start names = .ok spot) : Leads t last links start names spot := by
  induction links generalizing start names with
  | zero =>
      refine leads_of_walkWith (fun place names honward => ?_) h
      cases honward
  | succ links ih =>
      exact leads_of_walkWith (fun place names honward => ⟨links, rfl, ih honward⟩) h

section Leads

variable {last : Bool} {links : Nat} {start : Place} {names : List Bytes} {spot : Spot}

theorem Leads.entry_eq (h : Leads t last links start names spot) :
    spot.entry = t.at? spot.place := by
  induction h with
  | stop => rfl
  | stay _ _ _ ih | up _ _ _ _ ih | down _ _ _ _ ih | follow _ _ _ _ ih => exact ih
  | missing _ hentry | named _ hentry => exact hentry.symm

/-- If links are followed, there is none at the end. -/
theorem Leads.not_isLink (h : Leads t true links start names spot) :
    ¬spot.entry.any Entry.isLink := by
  induction h with
  | stop hlink => exact hlink
  | stay _ _ _ ih | up _ _ _ _ ih | down _ _ _ _ ih | follow _ _ _ _ ih => exact ih
  | missing => exact Bool.false_ne_true
  | named _ _ hfalse => cases hfalse

/-- A way that does not end at a link is the same if links are followed. -/
theorem Leads.of_not_isLink (h : Leads t last links start names spot)
    (hspot : ¬spot.entry.any Entry.isLink) : Leads t true links start names spot := by
  induction h with
  | stop hlink => exact .stop hlink
  | stay hdir hhere _ ih => exact .stay hdir hhere (ih hspot)
  | up hdir hhere habove _ ih => exact .up hdir hhere habove (ih hspot)
  | down henters hsome hlink _ ih => exact .down henters hsome hlink (ih hspot)
  | missing henters hnone => exact .missing henters hnone
  | named => exact absurd rfl hspot
  | follow henters hlink _ _ ih => exact .follow henters hlink (fun _ => rfl) (ih hspot)

/-- From a place that is no directory there is no way on. -/
theorem Leads.stops (hstart : t.at? start ≠ some .directory)
    (h : Leads t last links start names spot) : names = [] ∧ spot.place = start := by
  cases h with
  | stop => exact ⟨rfl, rfl⟩
  | stay hdir | up hdir => exact absurd hdir hstart
  | down henters | missing henters | named henters | follow henters =>
      exact absurd henters.directory hstart

/-- **A way that ends elsewhere stays the same if only one place changes that no way leads on
from.** -/
theorem Leads.of_agree {u : FileTree} (h : Leads t last links start names spot)
    (hkeep : ∀ other ≠ place, u.at? other = t.at? other) (hplace : ¬LeadsOn (t.at? place))
    (hapart : spot.place ≠ place) : Leads u last links start names spot := by
  have hdirs {other : Place} (hdir : t.at? other = some .directory) :
      u.at? other = some .directory := by
    rw [hkeep, hdir]
    rintro rfl
    exact hplace (.inl hdir)
  have henter {start : Place} {name : Bytes} (henters : t.Enters start name) :
      u.Enters start name :=
    ⟨hdirs henters.directory, henters.ne_here, henters.ne_above, henters.length_le⟩
  induction h with
  | @stop links start hlink =>
      rw [← hkeep start hapart] at hlink ⊢
      exact .stop hlink
  | stay hdir hhere _ ih => exact .stay (hdirs hdir) hhere (ih hapart)
  | up hdir hhere habove _ ih => exact .up (hdirs hdir) hhere habove (ih hapart)
  | down henters hsome hlink hrest ih =>
      refine .down (henter henters) ?_ hlink (ih hapart)
      rw [hkeep, hsome]
      -- the way would end at the place if it came there
      rintro rfl
      exact hapart (hrest.stops fun hdir => hplace (.inl hdir)).2
  | missing henters hnone =>
      refine .missing (henter henters) ?_
      rw [hkeep _ hapart, hnone]
  | named henters hlink hlast =>
      refine .named (henter henters) ?_ hlast
      rw [hkeep _ hapart, hlink]
  | follow henters hlink hlast _ ih =>
      refine .follow (henter henters) ?_ hlast (ih hapart)
      rw [hkeep, hlink]
      rintro rfl
      exact hplace (.inr (by rw [hlink]; rfl))

/-- The way to the place itself stays too, if no way leads on from there afterwards. -/
theorem Leads.of_agree_same {u : FileTree} (h : Leads t last links start names spot)
    (hspot : spot.place = place) (hkeep : ∀ other ≠ place, u.at? other = t.at? other)
    (hplace : ¬LeadsOn (t.at? place)) (hplace' : ¬LeadsOn (u.at? place)) :
    Leads u last links start names ⟨place, u.at? place⟩ := by
  have hother {other : Place} (hon : LeadsOn (t.at? other)) : u.at? other = t.at? other := by
    apply hkeep
    rintro rfl
    exact hplace hon
  have henter {start : Place} {name : Bytes} (henters : t.Enters start name) :
      u.Enters start name :=
    ⟨(hother (.inl henters.directory)).trans henters.directory, henters.ne_here, henters.ne_above,
      henters.length_le⟩
  have hstop {links : Nat} : Leads u last links place [] ⟨place, u.at? place⟩ :=
    .stop fun hlink => hplace' (.inr hlink)
  have hend {links : Nat} {start : Place} {name : Bytes} (henters : t.Enters start name)
      (hsame : start ++ [name] = place) :
      Leads u last links start [name] ⟨place, u.at? place⟩ := by
    subst hsame
    cases hentry : u.at? (start ++ [name]) with
    | none => exact .missing (henter henters) hentry
    | some entry =>
        have hlink : ¬entry.isLink := fun hlink => hplace' (.inr (by rw [hentry]; exact hlink))
        rw [← hentry]
        exact .down (henter henters) hentry hlink hstop
  induction h with
  | stop =>
      subst hspot
      exact hstop
  | stay hdir hhere _ ih => exact .stay ((hother (.inl hdir)).trans hdir) hhere (ih hspot)
  | up hdir hhere habove _ ih =>
      exact .up ((hother (.inl hdir)).trans hdir) hhere habove (ih hspot)
  | @down links start name names spot entry henters hsome hlink hrest ih =>
      by_cases hsame : start ++ [name] = place
      · obtain ⟨rfl, -⟩ := hrest.stops fun hdir => hplace (.inl (hsame ▸ hdir))
        exact hend henters hsame
      · refine .down (henter henters) ?_ hlink (ih hspot)
        rw [hkeep _ hsame, hsome]
  | missing henters _ => exact hend henters hspot
  | named henters hlink _ =>
      subst hspot
      exact absurd (.inr (by rw [hlink]; rfl)) hplace
  | follow henters hlink hlast _ ih =>
      refine .follow (henter henters) ?_ hlast (ih hspot)
      rw [hother, hlink]
      exact .inr (by rw [hlink]; rfl)

end Leads

/-! ### Opening and creating -/

section Resolve

variable {last : Bool} {cwd : Place} {path : Bytes} {spot : Spot}

theorem resolveTo_eq_ok_iff : t.resolveTo last cwd path = .ok spot ↔
    (¬path.contains 0 ∧ ¬path.isEmpty ∧ ¬pathLimit ≤ path.length) ∧
      let way := climb (if Path.isAbsolute path then [] else cwd) (Path.components path)
      t.walk last linkLimit way.1 way.2 = .ok spot := by
  rw [resolveTo]
  split
  · next hzero => exact ⟨nofun, fun h => absurd hzero h.1.1⟩
  next hzero =>
  split
  · next hempty => exact ⟨nofun, fun h => absurd hempty h.1.2.1⟩
  next hempty =>
  split
  · next hlength => exact ⟨nofun, fun h => absurd hlength h.1.2.2⟩
  next hlength =>
  exact (and_iff_right ⟨hzero, hempty, hlength⟩).symm

/-- Where a path leads is where some names lead, in any tree and whether or not a link at the end is
followed. -/
theorem leads_of_resolveTo (h : t.resolveTo last cwd path = .ok spot) :
    ∃ start names, Leads t last linkLimit start names spot ∧
      ∀ (u : FileTree) (last' : Bool) (spot' : Spot),
        Leads u last' linkLimit start names spot' → u.resolveTo last' cwd path = .ok spot' := by
  obtain ⟨hpath, hwalk⟩ := resolveTo_eq_ok_iff.mp h
  refine ⟨_, _, leads_of_walk hwalk, fun u last' spot' hu => ?_⟩
  exact resolveTo_eq_ok_iff.mpr ⟨hpath, hu.walk_eq⟩

theorem entry_of_resolveTo (h : t.resolveTo last cwd path = .ok spot) :
    spot.entry = t.at? spot.place := by
  obtain ⟨start, names, hleads, -⟩ := leads_of_resolveTo h
  exact hleads.entry_eq

theorem resolve_of_resolveTo (h : t.resolveTo last cwd path = .ok spot)
    (hspot : ¬spot.entry.any Entry.isLink) : t.resolve cwd path = .ok spot := by
  obtain ⟨start, names, hleads, hback⟩ := leads_of_resolveTo h
  exact hback t true spot (hleads.of_not_isLink hspot)

/-- What a path leads to is a directory, or no way leads on from there. -/
theorem not_leadsOn_of_resolve {found : Option Entry}
    (h : t.resolve cwd path = .ok ⟨place, found⟩) (hfile : found ≠ some .directory) :
    ¬LeadsOn (t.at? place) := by
  obtain ⟨start, names, hleads, -⟩ := leads_of_resolveTo h
  have hentry : found = t.at? place := hleads.entry_eq
  rw [← hentry]
  rintro (hdir | hlink)
  · exact hfile hdir
  · exact hleads.not_isLink hlink

theorem resolveTo_of_agree {u : FileTree} (h : t.resolveTo last cwd path = .ok spot)
    (hkeep : ∀ other ≠ place, u.at? other = t.at? other) (hplace : ¬LeadsOn (t.at? place))
    (hapart : spot.place ≠ place) : u.resolveTo last cwd path = .ok spot := by
  obtain ⟨start, names, hleads, hback⟩ := leads_of_resolveTo h
  exact hback u last spot (hleads.of_agree hkeep hplace hapart)

theorem resolveTo_of_agree_same {u : FileTree} {found : Option Entry}
    (h : t.resolveTo last cwd path = .ok ⟨place, found⟩)
    (hkeep : ∀ other ≠ place, u.at? other = t.at? other) (hplace : ¬LeadsOn (t.at? place))
    (hplace' : ¬LeadsOn (u.at? place)) :
    u.resolveTo last cwd path = .ok ⟨place, u.at? place⟩ := by
  obtain ⟨start, names, hleads, hback⟩ := leads_of_resolveTo h
  exact hback u last _ (hleads.of_agree_same rfl hkeep hplace hplace')

/-- What is put where a path leads is found there. -/
theorem resolveTo_put_same {found : Option Entry}
    (h : t.resolveTo last cwd path = .ok ⟨place, found⟩) (hplace : ¬LeadsOn (t.at? place))
    (contents : Bytes) : (t.put place (.file contents)).resolveTo last cwd path =
      .ok ⟨place, some (.file contents)⟩ := by
  have hroot := ne_nil_of_not_leadsOn hplace
  rw [resolveTo_of_agree_same h (fun other => at?_put_of_ne hroot _) hplace
    (not_leadsOn_put hroot contents), at?_put_self hroot]

/-- A path to a new file led to its place before, where there was nothing. -/
theorem resolveTo_of_put_same {found : Option Entry} (hfree : t.at? place = none) {contents : Bytes}
    (h : (t.put place (.file contents)).resolveTo last cwd path = .ok ⟨place, found⟩) :
    t.resolveTo last cwd path = .ok ⟨place, none⟩ := by
  have hplace : ¬LeadsOn (t.at? place) := hfree ▸ not_leadsOn_none
  have hroot := ne_nil_of_not_leadsOn hplace
  rw [resolveTo_of_agree_same h (fun other hother => (at?_put_of_ne hroot _ hother).symm)
    (not_leadsOn_put hroot contents) hplace, hfree]

/-- A new file elsewhere changes nothing about where a path leads, nor does taking it away again. -/
theorem resolveTo_put_iff (hfree : t.at? place = none) (hapart : spot.place ≠ place)
    (contents : Bytes) : (t.put place (.file contents)).resolveTo last cwd path = .ok spot ↔
      t.resolveTo last cwd path = .ok spot := by
  have hplace : ¬LeadsOn (t.at? place) := hfree ▸ not_leadsOn_none
  have hroot := ne_nil_of_not_leadsOn hplace
  constructor
  · intro h
    exact resolveTo_of_agree h (fun other hother => (at?_put_of_ne hroot _ hother).symm)
      (not_leadsOn_put hroot contents) hapart
  · intro h
    exact resolveTo_of_agree h (fun other => at?_put_of_ne hroot _) hplace hapart

end Resolve

theorem openAt_eq_ok_iff {cwd : Place} {path : Bytes} {o : Opened} :
    t.openAt cwd path = .ok o ↔
      t.resolve cwd path = .ok ⟨o.place, some o.entry⟩ ∧
        ¬(asksDirectory path ∧ o.entry ≠ .directory) := by
  rw [openAt]
  split
  · next hresolve => simp [hresolve]
  · next hresolve => simp [hresolve]
  · next place entry hresolve =>
    rw [hresolve]
    obtain ⟨place', entry'⟩ := o
    split
    · next hasks =>
      refine ⟨nofun, ?_⟩
      rintro ⟨heq, hnot⟩
      cases heq
      exact absurd hasks hnot
    · next hasks =>
      constructor
      · intro heq
        cases heq
        exact ⟨rfl, hasks⟩
      · rintro ⟨heq, -⟩
        cases heq
        rfl

/-- What is read to its end are the contents. -/
theorem intake_of_openAt {cwd : Place} {path : Bytes} {o : Opened} (h : t.openAt cwd path = .ok o)
    (hread : (o.intake path).failure = none) :
    o.intake path = ⟨(t.contents? cwd path).getD [], none⟩ := by
  obtain ⟨there, entry⟩ := o
  rw [contents?, h]
  cases entry with
  | directory | link => cases hread
  | file => rfl
  | device d =>
      cases d with
      | null => rfl
      | full => cases hread

theorem openAt_of_agree {u : FileTree} {cwd : Place} {path : Bytes} {o : Opened}
    (h : t.openAt cwd path = .ok o) (hkeep : ∀ other ≠ place, u.at? other = t.at? other)
    (hplace : ¬LeadsOn (t.at? place)) (hapart : o.place ≠ place) :
    u.openAt cwd path = .ok o := by
  obtain ⟨hresolve, hasks⟩ := openAt_eq_ok_iff.mp h
  exact openAt_eq_ok_iff.mpr ⟨resolveTo_of_agree hresolve hkeep hplace hapart, hasks⟩

theorem openAt_put {cwd : Place} {path : Bytes} {o : Opened} (h : t.openAt cwd path = .ok o)
    (hplace : ¬LeadsOn (t.at? place)) (hapart : o.place ≠ place) (entry : Entry) :
    (t.put place entry).openAt cwd path = .ok o :=
  openAt_of_agree h (fun _ => at?_put_of_ne (ne_nil_of_not_leadsOn hplace) entry) hplace hapart

theorem openAt_put_same {cwd : Place} {path : Bytes} {o : Opened} (h : t.openAt cwd path = .ok o)
    (hfile : o.entry ≠ .directory) (contents : Bytes) :
    (t.put o.place (.file contents)).openAt cwd path = .ok ⟨o.place, .file contents⟩ := by
  obtain ⟨hresolve, hasks⟩ := openAt_eq_ok_iff.mp h
  have hthere : ¬LeadsOn (t.at? o.place) :=
    not_leadsOn_of_resolve hresolve fun heq => hfile (Option.some.inj heq)
  refine openAt_eq_ok_iff.mpr ⟨resolveTo_put_same hresolve hthere contents, ?_⟩
  rintro ⟨hpath, -⟩
  exact hasks ⟨hpath, hfile⟩

/-- Beside a new file a path opens what it did before, or the new file if it led there. -/
theorem openAt_put_iff {cwd : Place} {path : Bytes} (hfree : t.at? place = none) {contents : Bytes}
    {o : Opened} : (t.put place (.file contents)).openAt cwd path = .ok o ↔
      t.openAt cwd path = .ok o ∨
        t.resolve cwd path = .ok ⟨place, none⟩ ∧ ¬asksDirectory path ∧
          o = ⟨place, .file contents⟩ := by
  have hplace : ¬LeadsOn (t.at? place) := hfree ▸ not_leadsOn_none
  constructor
  · intro h
    obtain ⟨hresolve, hasks⟩ := openAt_eq_ok_iff.mp h
    obtain ⟨there, entry⟩ := o
    by_cases hsame : there = place
    · right
      subst hsame
      have hentry : some entry = (t.put there (.file contents)).at? there :=
        entry_of_resolveTo hresolve
      rw [at?_put_self (ne_nil_of_not_leadsOn hplace)] at hentry
      cases hentry
      exact ⟨resolveTo_of_put_same hfree hresolve, fun hpath => hasks ⟨hpath, nofun⟩, rfl⟩
    · left
      exact openAt_eq_ok_iff.mpr ⟨(resolveTo_put_iff hfree hsame contents).mp hresolve, hasks⟩
  · rintro (h | ⟨hresolve, hasks, rfl⟩)
    · refine openAt_put h hplace ?_ _
      rintro rfl
      have hentry := entry_of_resolveTo (openAt_eq_ok_iff.mp h).1
      rw [hfree] at hentry
      cases hentry
    · exact openAt_eq_ok_iff.mpr
        ⟨resolveTo_put_same hresolve hplace contents, fun h => hasks h.1⟩


theorem resolve_of_resolveNew {cwd : Place} {path : Bytes} {spot : Spot}
    (h : t.resolveNew cwd path = .ok spot) :
    t.resolve cwd path = .ok spot ∧ spot.entry ≠ some .directory ∧ ¬asksDirectory path := by
  rw [resolveNew] at h
  split at h
  · -- a path that asks for a directory is refused in any case
    dsimp only at h
    split at h <;> cases h
  · next hasks =>
    split at h
    · cases h
    · next hnot =>
      refine ⟨h, ?_, ?_⟩
      · intro hdir
        obtain ⟨there, found⟩ := spot
        obtain rfl : found = some .directory := hdir
        exact hnot _ h
      · intro hpath
        rw [resolve, resolveTo] at h
        split at h
        · cases h
        next hzero =>
        split at h
        · cases h
        split at h
        · cases h
        next hlength =>
        exact hasks ⟨hpath, Nat.not_le.mp hlength, by simpa using hzero⟩

/-- A file that was created is new at its place or took the place of another file, and all else
stays as it was. A device is only opened. -/
theorem create_cases {cwd : Place} {path : Bytes} {u : FileTree} {o : Opened}
    (h : t.create cwd path = .ok (u, o)) :
    ∃ found, t.resolve cwd path = .ok ⟨o.place, found⟩ ∧ ¬asksDirectory path ∧
      ((∃ d, o.entry = .device d ∧ found = some o.entry ∧ u = t) ∨
        o.entry = .file [] ∧ u = t.put o.place (.file []) ∧ ¬LeadsOn (t.at? o.place)) := by
  rw [create] at h
  split at h
  · cases h
  · next d hresolve =>
    cases h
    obtain ⟨hspot, -, hasks⟩ := resolve_of_resolveNew hresolve
    exact ⟨_, hspot, hasks, .inl ⟨d, rfl, rfl, rfl⟩⟩
  · next there found hnew hresolve =>
    cases h
    obtain ⟨hspot, hfile, hasks⟩ := resolve_of_resolveNew hresolve
    exact ⟨found, hspot, hasks, .inr ⟨rfl, rfl, not_leadsOn_of_resolve hspot hfile⟩⟩

/-- What was created can be opened. -/
theorem openAt_of_create {cwd : Place} {path : Bytes} {u : FileTree} {o : Opened}
    (h : t.create cwd path = .ok (u, o)) : u.openAt cwd path = .ok o := by
  obtain ⟨found, hresolve, hasks, hmade⟩ := create_cases h
  refine openAt_eq_ok_iff.mpr ⟨?_, fun hpath => hasks hpath.1⟩
  obtain ⟨d, -, rfl, rfl⟩ | ⟨hfile, rfl, hentry⟩ := hmade
  · exact hresolve
  · rw [hfile]
    exact resolveTo_put_same hresolve hentry []

/-- Creating a file asks for no more than where it goes: what was in it does not matter. -/
theorem create_put {cwd : Place} {path : Bytes} {u : FileTree}
    (h : t.create cwd path = .ok (u, ⟨place, .file []⟩)) (contents : Bytes) :
    (t.put place (.file contents)).create cwd path = .ok (u, ⟨place, .file []⟩) := by
  obtain ⟨found, hresolve, hasks, ⟨d, hdevice, -⟩ | ⟨-, hmade, hentry⟩⟩ := create_cases h
  · cases hdevice
  have hnew : (t.put place (.file contents)).resolveNew cwd path =
      .ok ⟨place, some (.file contents)⟩ := by
    rw [resolveNew, if_neg fun hpath => hasks hpath.1, resolve,
      resolveTo_put_same hresolve hentry]
  rw [create, hnew]
  show Except.ok ((t.put place (.file contents)).put place (.file []), _) = _
  rw [put_put, hmade]

/-! ### Clean paths from the root -/

section Rooted

open Literate.Path

variable {names init : List Bytes} {name : Bytes}

theorem climb_of_isName (hnames : ∀ name ∈ names, IsName name) (place : Place) :
    climb place names = (place, names) := by
  cases names with
  | nil => rfl
  | cons name names =>
      have hname := hnames name List.mem_cons_self
      rw [climb, if_neg hname.ne_here, if_neg hname.ne_above]

/-- Where a way ends has the last of its names, unless a link at its end is followed. -/
theorem Leads.exists_place {links : Nat} {start : Place} {spot : Spot} (hname : IsName name)
    (h : Leads t false links start names spot) (hnames : names.getLast? = some name) :
    ∃ dir, spot.place = dir ++ [name] := by
  have hlast {first : Bytes} {rest : List Bytes} (hsome : (first :: rest).getLast? = some name) :
      rest = [] ∧ first = name ∨ rest.getLast? = some name := by
    cases rest with
    | nil => exact .inl ⟨rfl, Option.some.inj hsome⟩
    | cons second rest => exact .inr hsome
  induction h with
  | stop => cases hnames
  | stay _ hhere _ ih =>
      obtain ⟨rfl, rfl⟩ | hrest := hlast hnames
      · exact absurd hhere hname.ne_here
      · exact ih hrest
  | up _ _ habove _ ih =>
      obtain ⟨rfl, rfl⟩ | hrest := hlast hnames
      · exact absurd habove hname.ne_above
      · exact ih hrest
  | @down _ start _ _ _ _ _ _ _ hway ih =>
      obtain ⟨rfl, rfl⟩ | hrest := hlast hnames
      · cases hway
        exact ⟨start, rfl⟩
      · exact ih hrest
  | @missing _ start | @named _ start =>
      cases hnames
      exact ⟨start, rfl⟩
  | follow _ _ hfollow _ ih =>
      obtain ⟨rfl, rfl⟩ | hrest := hlast hnames
      · cases hfollow rfl
      · exact ih (by rw [List.getLast?_append, hrest]; rfl)

/-- Where there are no links, a way of names leads just there. -/
theorem Leads.place_eq (hlinks : ∀ there target, t.at? there ≠ some (.link target)) {last : Bool}
    {links : Nat} {start : Place} {spot : Spot} (hnames : ∀ name ∈ names, IsName name)
    (h : Leads t last links start names spot) : spot.place = start ++ names := by
  induction h with
  | stop => rw [List.append_nil]
  | stay _ hhere => exact absurd hhere (hnames _ List.mem_cons_self).ne_here
  | up _ _ habove => exact absurd habove (hnames _ List.mem_cons_self).ne_above
  | down _ _ _ _ ih =>
      rw [ih (List.forall_mem_cons.mp hnames).2, List.append_assoc, List.singleton_append]
  | missing => rfl
  | named _ hlink | follow _ hlink => exact absurd hlink (hlinks _ _)

theorem leads_of_resolveTo_rooted {last : Bool} {cwd : Place} {spot : Spot}
    (hnames : ∀ name ∈ names, IsName name) (h : t.resolveTo last cwd (rooted names) = .ok spot) :
    Leads t last linkLimit [] names spot := by
  obtain ⟨-, hwalk⟩ := resolveTo_eq_ok_iff.mp h
  rw [components_rooted hnames, if_pos (isAbsolute_rooted _), climb_of_isName hnames] at hwalk
  exact leads_of_walk hwalk

theorem asksDirectory_rooted (hname : IsName name) (init : List Bytes) :
    asksDirectory (rooted (init ++ [name])) = false := by
  rw [asksDirectory, decide_eq_false_iff_not]
  exact getLast?_rooted hname init

/-- Only the path of the root asks for a directory. -/
theorem eq_nil_of_asksDirectory_rooted (hnames : ∀ name ∈ names, IsName name)
    (h : asksDirectory (rooted names)) : names = [] := by
  rcases List.eq_nil_or_concat names with rfl | ⟨init, last, rfl⟩
  · rfl
  · rw [List.concat_eq_append] at hnames h
    rw [asksDirectory_rooted (hnames last (by simp))] at h
    cases h

theorem locate_root (t : FileTree) (cwd : Place) :
    t.locate cwd (rooted []) = .ok ⟨[], some .directory⟩ := rfl

theorem locate_rooted (hname : IsName name) (init : List Bytes) (cwd : Place) :
    t.locate cwd (rooted (init ++ [name])) = t.resolveTo false cwd (rooted (init ++ [name])) := by
  rw [locate, asksDirectory_rooted hname]

/-- **What a path made of names is the path of has the last of these names.** -/
theorem exists_place_of_locate (hinit : ∀ name ∈ init, IsName name) (hname : IsName name)
    {cwd : Place} {spot : Spot} (h : t.resolveTo false cwd (rooted (init ++ [name])) = .ok spot) :
    ∃ dir, spot.place = dir ++ [name] := by
  have hnames : ∀ other ∈ init ++ [name], IsName other := by
    rw [List.forall_mem_append, List.forall_mem_singleton]
    exact ⟨hinit, hname⟩
  exact (leads_of_resolveTo_rooted hnames h).exists_place hname (List.getLast?_concat ..)

theorem endsInName_rooted (hname : IsName name) (init : List Bytes) :
    endsInName (rooted (init ++ [name])) = true := by
  rw [endsInName, base_rooted hname]
  simp [hname.ne_here, hname.ne_above]

/-! ### Removing -/

/-- **A new file leaves no trace once it is removed by its path.** -/
theorem remove_put (hname : IsName name) {cwd : Place}
    (h : t.resolveTo false cwd (rooted (init ++ [name])) = .ok ⟨place, none⟩) (contents : Bytes) :
    (t.put place (.file contents)).remove cwd (rooted (init ++ [name])) = t := by
  have hfree : t.at? place = none := (entry_of_resolveTo h).symm
  rw [remove, resolveTo_put_same h (hfree ▸ not_leadsOn_none)]
  show (if endsInName (rooted (init ++ [name])) ∧ !asksDirectory (rooted (init ++ [name])) then _
    else _) = t
  rw [if_pos ⟨endsInName_rooted hname init, by rw [asksDirectory_rooted hname]; rfl⟩,
    erase_put hfree]

/-- What led to nothing before leads to nothing that could be removed once there is a file at
another place, of whatever was there. -/
theorem remove_of_free {cwd : Place} {path : Bytes}
    (h : t.resolveTo false cwd path = .ok ⟨place, none⟩) {target : Place} (htarget : target ≠ [])
    (contents : Bytes) (hapart : ∀ spot,
      (t.put target (.file contents)).resolveTo false cwd path = .ok spot → spot.place ≠ target) :
    (t.put target (.file contents)).remove cwd path = t.put target (.file contents) := by
  have hfree {there : Place} {entry : Entry} (hthere :
      (t.put target (.file contents)).resolveTo false cwd path = .ok ⟨there, some entry⟩) :
      False := by
    -- no way leads on from a file, so the same way was there before
    have hbefore := resolveTo_of_agree hthere
      (fun other hother => (at?_put_of_ne htarget _ hother).symm)
      (not_leadsOn_put htarget contents) (hapart _ hthere)
    cases h.symm.trans hbefore
  rw [remove]
  split
  · next hthere => exact (hfree hthere).elim
  · next hthere => exact (hfree hthere).elim
  · rfl

end Rooted

end Literate.FileTree
