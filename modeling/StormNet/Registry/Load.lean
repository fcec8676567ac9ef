/-
  Registry/Load.lean --- what `ServiceManager::loadFromDB` makes of the table.

  The only exceptions are those of the select and of `parseTime`; `MySqlResult::get` gives an
  empty string for what it does not find.  The times are `uint32_t`, so the sum of a row's
  time and `activeInterval` is taken modulo 2^32; what a row is meant to say is stated with
  the sum of the numbers.
-/
import StormNet.Registry.Registration

set_option autoImplicit false

namespace StormNet.Registry

open StormNet.Foundation
open StormNet.Util (Str)

/-- The sum of the times does not wrap around to before the clock. -/
def Row.InTime (cfg : RegistryConfig) (now : UInt32) (row : Row) : Prop :=
  ∀ time, row.heartBeatTime = some time →
    time.toNat + cfg.activeInterval.toNat < UInt32.size ∨ now ≤ time + cfg.activeInterval

/-- `ep` is the endpoint of a row at the time `now`. -/
structure IsEntry (cfg : RegistryConfig) (now : UInt32) (row : Row) (ep : EndPoint) : Prop where
  id : ep.toId = row.toId
  time : row.heartBeatTime = some ep.heartBeatTime
  active : ep.active = false ↔
    ep.heartBeatTime.toNat + cfg.activeInterval.toNat < now.toNat

variable {cfg : RegistryConfig} {now : UInt32} {row : Row} {ep : EndPoint}

/-- The comparison of the source is that of the numbers unless the sum wraps around to before
the clock. -/
theorem lt_add_iff (time interval now : UInt32) :
    (time + interval < now ↔ time.toNat + interval.toNat < now.toNat) ↔
      time.toNat + interval.toNat < UInt32.size ∨ now ≤ time + interval := by
  rw [UInt32.lt_iff_toNat_lt, UInt32.le_iff_toNat_le, UInt32.toNat_add]
  have hnow := now.toNat_lt_size
  unfold UInt32.size at *
  omega

theorem isEntry_loadRow_iff (h : ServiceManager.loadRow cfg now row = some ep) :
    IsEntry cfg now row ep ↔ row.InTime cfg now := by
  obtain ⟨time, htime, rfl⟩ := Option.map_eq_some_iff.mp h
  have hintime : row.InTime cfg now ↔
      (time + cfg.activeInterval < now ↔
        time.toNat + cfg.activeInterval.toNat < now.toNat) := by
    rw [lt_add_iff, Row.InTime, htime]
    simp
  rw [hintime]
  constructor
  · intro hentry
    rw [← hentry.active]
    simp
  · intro hsum
    refine ⟨rfl, htime, ?_⟩
    rw [← hsum]
    simp

namespace Store

open ServiceManager

/-- Both indexes are those of the rows: the lists group the endpoints of the rows, in their
order, and the strings are those of the rows. -/
def Reflects (cfg : RegistryConfig) (now : UInt32) (rows : List Row) (m : ServiceManager) :
    Prop :=
  (∃ eps, List.Forall₂ (IsEntry cfg now) rows eps ∧
    ∀ key, m.services key = Grouping.group (·.key) eps key) ∧
  ∀ x, x ∈ m.allService ↔ x ∈ rows.map (fun row => ipPort row.ip row.port)

/-- Both indexes are as they were. -/
def SameIndexes (m m' : ServiceManager) : Prop :=
  m'.services = m.services ∧ m'.allService = m.allService

/-- An exception is raised: by the select, or by the time of a row. -/
def Raises (s : Store) (selects : Bool) : Prop :=
  selects = false ∨ ∃ row ∈ s.rows, row.heartBeatTime = none

/-- A load takes over the table or leaves both indexes alone. -/
def AllOrNothing (cfg : RegistryConfig) (s : Store) (now : UInt32) (selects : Bool)
    (t : Store) : Prop :=
  (¬ s.Raises selects → Reflects cfg now s.rows t.manager) ∧
    (s.Raises selects → SameIndexes s.manager t.manager)

/-- Neither index has anything. -/
def Blank (m : ServiceManager) : Prop := m.services = (fun _ => []) ∧ m.allService = []

variable {s : Store} {selects : Bool} {eps : List EndPoint}

theorem forall₂_mapM {rows : List Row} (h : rows.mapM (loadRow cfg now) = some eps) :
    List.Forall₂ (fun row ep => loadRow cfg now row = some ep) rows eps := by
  induction rows generalizing eps with
  | nil =>
    cases h
    exact .nil
  | cons row rows ih =>
    simp only [List.mapM_cons, Option.bind_eq_bind, Option.pure_def, Option.bind_eq_some_iff,
      Option.some.injEq] at h
    obtain ⟨ep, hep, rest, hrest, rfl⟩ := h
    exact .cons hep (ih hrest)

theorem mapM_eq_none_iff {rows : List Row} :
    rows.mapM (loadRow cfg now) = none ↔ ∃ row ∈ rows, row.heartBeatTime = none := by
  induction rows with
  | nil => simp
  | cons row rows ih =>
    cases htime : row.heartBeatTime with
    | none => simp [loadRow, htime]
    | some time =>
      have hrest : (row :: rows).mapM (loadRow cfg now) = none ↔
          rows.mapM (loadRow cfg now) = none := by
        cases hloaded : rows.mapM (loadRow cfg now) <;> simp [loadRow, htime, hloaded]
      rw [hrest, ih]
      simp [htime]

/-- A load stops early at an exception and at an empty table. -/
theorem fetched_eq_none_iff :
    s.fetched cfg now selects = none ↔ s.Raises selects ∨ s.rows = [] := by
  unfold fetched loaded Raises
  cases selects with
  | false => simp
  | true =>
    rw [if_pos rfl, ite_eq_left_iff, mapM_eq_none_iff]
    simp only [Bool.true_eq_false, false_or]
    exact ⟨fun h => or_iff_not_imp_right.mpr h, fun h => or_iff_not_imp_right.mp h⟩

theorem forall₂_fetched (h : s.fetched cfg now selects = some eps) :
    List.Forall₂ (fun row ep => loadRow cfg now row = some ep) s.rows eps := by
  unfold fetched loaded at h
  split at h
  · rw [Option.ite_none_left_eq_some] at h
    exact forall₂_mapM h.2
  · cases h

/-- What is read off the ids of the rows is read off those of their endpoints. -/
theorem map_toId_of_forall₂ {β : Type} {R : Row → EndPoint → Prop} {rows : List Row}
    (f : Id → β) (hid : ∀ row ep, R row ep → ep.toId = row.toId) (h : List.Forall₂ R rows eps) :
    eps.map (fun ep => f ep.toId) = rows.map (fun row => f row.toId) := by
  induction h with
  | nil => rfl
  | cons hentry _ ih => rw [List.map_cons, List.map_cons, ih, hid _ _ hentry]

theorem forall₂_isEntry_iff {rows : List Row}
    (h : List.Forall₂ (fun row ep => loadRow cfg now row = some ep) rows eps) :
    List.Forall₂ (IsEntry cfg now) rows eps ↔ ∀ row ∈ rows, row.InTime cfg now := by
  induction h with
  | nil => simp
  | cons hrow _ ih =>
    rw [List.forall₂_cons, isEntry_loadRow_iff hrow, ih, List.forall_mem_cons]

/-- Behind the early return for an empty table. -/
theorem reflects_nil_iff (m : ServiceManager) : Reflects cfg now [] m ↔ Blank m := by
  constructor
  · intro h
    obtain ⟨⟨eps, hentries, hservices⟩, hstrings⟩ := h
    cases hentries
    exact ⟨funext hservices, List.eq_nil_iff_forall_not_mem.mpr fun x hx => by
      simpa using (hstrings x).mp hx⟩
  · intro h
    refine ⟨⟨[], .nil, fun key => congrFun h.1 key⟩, fun x => ?_⟩
    rw [h.2, List.map_nil]

theorem services_swapServices (m : ServiceManager) (eps : List EndPoint) (key : Str) :
    (m.swapServices eps).services key = Grouping.group (·.key) eps key := by
  show eps.foldl (Grouping.push _) (fun _ => []) key = _
  rw [Grouping.foldl_push, List.nil_append]

/-- Behind the swaps. -/
theorem reflects_swapped_iff (m : ServiceManager) {rows : List Row}
    (h : List.Forall₂ (fun row ep => loadRow cfg now row = some ep) rows eps) :
    Reflects cfg now rows ((m.swapServices eps).swapAllService eps) ↔
      ∀ row ∈ rows, row.InTime cfg now := by
  have hid : ∀ row ep, loadRow cfg now row = some ep → ep.toId = row.toId :=
    fun row ep hrow => toId_loadRow hrow
  rw [← forall₂_isEntry_iff h]
  constructor
  · intro hreflects
    obtain ⟨⟨eps', hentries, hservices⟩, -⟩ := hreflects
    have hkeys : eps.map (fun ep => ep.key) = eps'.map (fun ep => ep.key) :=
      (map_toId_of_forall₂ Id.key hid h).trans
        (map_toId_of_forall₂ Id.key (fun _ _ hentry => hentry.id) hentries).symm
    have hsame : eps = eps' := by
      refine Grouping.eq_of_groups_eq hkeys fun key => ?_
      rw [← services_swapServices m eps key]
      exact hservices key
    rwa [hsame]
  · intro hentries
    refine ⟨⟨eps, hentries, services_swapServices m eps⟩, fun x => ?_⟩
    have hstrings := map_toId_of_forall₂ (fun i => ipPort i.ip i.port) hid h
    show x ∈ eps.map (fun ep => ipPort ep.ip ep.port) ↔ _
    rw [hstrings]

/-- **A load reflects the table, all or nothing, unless the table is empty and the indexes are
not**, or the sum of a row's times wraps around. -/
theorem allOrNothing_loadFromDB_iff (cfg : RegistryConfig) (s : Store) (start now : UInt32)
    (selects : Bool) : s.AllOrNothing cfg now selects (s.loadFromDB cfg start now selects) ↔
      s.Raises selects ∨
        (s.rows = [] → Blank s.manager) ∧ ∀ row ∈ s.rows, row.InTime cfg now := by
  by_cases hraises : s.Raises selects
  · have hfetched : s.fetched cfg now selects = none := fetched_eq_none_iff.mpr (Or.inl hraises)
    rw [loadFromDB, hfetched]
    exact iff_of_true ⟨fun hnot => absurd hraises hnot, fun _ => ⟨rfl, rfl⟩⟩ (Or.inl hraises)
  · rw [AllOrNothing, imp_iff_right hraises, and_iff_left (fun h => absurd h hraises),
      or_iff_right hraises, loadFromDB]
    cases hfetched : s.fetched cfg now selects with
    | none =>
      have hnil : s.rows = [] := (fetched_eq_none_iff.mp hfetched).resolve_left hraises
      rw [hnil, reflects_nil_iff]
      simp only [forall_const, List.not_mem_nil, false_implies, implies_true, and_true]
      rfl
    | some eps =>
      have hrows : s.rows ≠ [] := by
        intro hnil
        rw [fetched_eq_none_iff.mpr (Or.inr hnil)] at hfetched
        cases hfetched
      rw [and_iff_right (fun hnil => absurd hnil hrows)]
      exact reflects_swapped_iff _ (forall₂_fetched hfetched)

/-- The one row of the table is loaded, then deleted. -/
def emptied : Store where
  manager := ((start [⟨oneName, some 0⟩] 0 0).loadFromDB .init 1 1 true).manager
  rows := []

theorem stale_behind_empty_table :
    ¬ emptied.AllOrNothing .init 500 true (emptied.loadFromDB .init 500 500 true) := by
  intro h
  have hraises : ¬ emptied.Raises true := by
    rintro (hselects | ⟨row, hrow, -⟩)
    · cases hselects
    · cases hrow
  obtain ⟨hservices, -⟩ := (reflects_nil_iff _).mp (h.1 hraises)
  have hlist := congrFun hservices oneName.key
  revert hlist
  decide

end Store

end StormNet.Registry
