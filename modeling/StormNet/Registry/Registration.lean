/-
  Registry/Registration.lean --- what a heartbeat registers, and which lists endpoints come
  to stand in, over any sequence of calls.

  The registry decides by the address alone whether an endpoint is new, and by the
  concatenated names which list it belongs to.
-/
import StormNet.Registry.ServiceManager

set_option autoImplicit false

namespace StormNet.Registry

open StormNet.Foundation
open StormNet.Util (Str)
open ServiceManager

variable {cfg : RegistryConfig} {columnDefault : Option UInt32} {s t : Store} {a : Store.Action}
variable {m : ServiceManager} {e : Id} {now : UInt32}

/-! ## One heartbeat -/

namespace ServiceManager

/-- `getService` for the names of `e` returns its address, active and heard of at `now`. -/
def Registered (m : ServiceManager) (e : Id) (now : UInt32) : Prop :=
  ∃ ep ∈ m.getService e.names,
    ep.ip = e.ip ∧ ep.port = e.port ∧ ep.active = true ∧ ep.heartBeatTime = now

instance (m : ServiceManager) (e : Id) (now : UInt32) : Decidable (m.Registered e now) :=
  inferInstanceAs (Decidable (∃ ep ∈ _, _ ∧ _))

/-- The address is not in the set of the last reload, or it is in the list of its service. -/
def Placed (m : ServiceManager) (e : Id) : Prop :=
  m.isNewService e = true ∨ ∃ ep ∈ m.getService e.names, ep.ip = e.ip ∧ ep.port = e.port

theorem isAt_iff {ep : EndPoint} : isAt e ep = true ↔ ep.ip = e.ip ∧ ep.port = e.port := by
  simp [isAt]

/-- **A heartbeat registers its sender if and only if the address is new or already in the
list of the service.** -/
theorem registered_heartBeat_iff (m : ServiceManager) (e : Id) (now : UInt32) :
    (m.heartBeat e now).Registered e now ↔ m.Placed e := by
  cases hnew : m.isNewService e with
  | true =>
    refine iff_of_true ?_ (.inl hnew)
    refine ⟨newEndPoint e now, ?_, rfl, rfl, rfl, rfl⟩
    rw [heartBeat_of_new hnew]
    show newEndPoint e now ∈ push m.services (newEndPoint e now) e.key
    rw [push, Grouping.push_apply]
    simp [newEndPoint]
  | false =>
    rw [heartBeat_of_known hnew]
    have hlist : (m.refresh e now).getService e.names = (m.getService e.names).map (beat e now) :=
      Function.update_self ..
    constructor
    · intro h
      obtain ⟨ep, hep, hip, hport, -, -⟩ := h
      rw [hlist, List.mem_map] at hep
      obtain ⟨old, hold, rfl⟩ := hep
      have hid := toId_beat e now old
      exact .inr ⟨old, hold, (congrArg Id.ip hid).symm.trans hip,
        (congrArg Id.port hid).symm.trans hport⟩
    · intro h
      obtain ⟨ep, hep, hat⟩ := h.resolve_left (by simp [hnew])
      refine ⟨beat e now ep, ?_, ?_⟩
      · rw [hlist]
        exact List.mem_map_of_mem hep
      · rw [beat, if_pos (isAt_iff.mpr hat)]
        exact ⟨hat.1, hat.2, rfl, rfl⟩

end ServiceManager

namespace Store

/-- An endpoint of one service, and the same address under another name. -/
def oneName : Id := ⟨⟨"a".toList, "b".toList, "c".toList, []⟩, "10.0.0.1".toList, 80⟩

def otherName : Id := ⟨⟨"a".toList, "b".toList, "d".toList, []⟩, "10.0.0.1".toList, 80⟩

/-- The table knows the address under another name. -/
theorem unregistered_under_other_name :
    ∃ s, Runs (step .init none) (fun _ _ => True) (start [⟨oneName, some 0⟩] 0 0) s ∧
      ¬ (s.manager.heartBeat otherName 7).Registered otherName 7 := by
  have hexec : ∃ s, Runs (step .init none) (fun _ _ => True) (start [⟨oneName, some 0⟩] 0 0) s ∧
      decide (¬ ((s.manager.heartBeat otherName 7).Registered otherName 7)) = true :=
    exists_runs_of_schedule (start [⟨oneName, some 0⟩] 0 0) [.loadFromDB 1 1 true] _ (by decide)
  obtain ⟨s, hs, hstate⟩ := hexec
  exact ⟨s, hs, of_decide_eq_true hstate⟩

/-! ## Which list -/

/-- Every endpoint stands in the list of its own key. -/
def Keyed (m : ServiceManager) : Prop := ∀ key, ∀ i ∈ m.listed key, i.key = key

theorem Keyed.push (h : Keyed m) (ep : EndPoint) :
    Keyed { m with services := push m.services ep } := by
  intro key i hi
  rw [listed_push, List.mem_append] at hi
  rcases hi with hold | hnew
  · exact h key i hold
  · split at hnew
    · rename_i hkey
      rw [List.mem_singleton.mp hnew, hkey]
    · cases hnew

theorem Keyed.heartBeat (h : Keyed m) (e : Id) (now : UInt32) : Keyed (m.heartBeat e now) := by
  cases hnew : m.isNewService e with
  | true =>
    rw [heartBeat_of_new hnew]
    exact h.push (newEndPoint e now)
  | false =>
    rw [heartBeat_of_known hnew]
    intro key i hi
    rw [listed_refresh] at hi
    exact h key i hi

theorem Keyed.loadFromDB (h : Keyed s.manager) (start now : UInt32) (selects : Bool) :
    Keyed (s.loadFromDB cfg start now selects).manager := by
  intro key i hi
  rw [listed_loadFromDB] at hi
  split at hi
  · exact (Grouping.mem_group.mp hi).2
  · exact h key i hi

/-- The two flushes of an update that reloads. -/
def flushes (columnDefault : Option UInt32) (s : Store) (io : Io) : Store :=
  (s.flushNewServiceToDB columnDefault io.inserts).flushUpdateServiceToDB io.updates

/-- An update either loads behind its flushes or only flushes. -/
theorem update_cases (cfg : RegistryConfig) (columnDefault : Option UInt32) (s : Store)
    (clock : Nat → UInt32) (io : Io) :
    (updateDue cfg s.manager (clock 0) = true ∧ reloadDue cfg s.manager (clock 1) = true ∧
      s.update cfg columnDefault clock io =
        (s.flushes columnDefault io).loadFromDB cfg (clock 2) (clock 3) io.selects) ∨
    (¬ (updateDue cfg s.manager (clock 0) = true ∧ reloadDue cfg s.manager (clock 1) = true) ∧
      (s.update cfg columnDefault clock io = s.flushNewServiceToDB columnDefault io.inserts ∨
        s.update cfg columnDefault clock io = s.flushes columnDefault io)) := by
  unfold update
  simp only
  split
  · rename_i hupdate
    split
    · rename_i hreload
      exact .inl ⟨hupdate, hreload, rfl⟩
    · rename_i hreload
      exact .inr ⟨fun hdue => hreload hdue.2, .inr rfl⟩
  · rename_i hupdate
    exact .inr ⟨fun hdue => hupdate hdue.1, .inl rfl⟩

theorem Keyed.step (h : Keyed s.manager) (hstep : Store.step cfg columnDefault s a = some t) :
    Keyed t.manager := by
  cases a with
  | heartBeat e now =>
    cases hstep
    exact h.heartBeat e now
  | update clock io =>
    cases hstep
    rcases update_cases cfg columnDefault s clock io with ⟨-, -, hupdate⟩ | ⟨-, hupdate | hupdate⟩
    · rw [hupdate]
      exact Keyed.loadFromDB (s := s.flushes columnDefault io) h _ _ _
    · rw [hupdate]
      exact h
    · rw [hupdate]
      exact h
  | loadFromDB start now selects =>
    cases hstep
    exact h.loadFromDB start now selects

theorem keyed_start (rows : List Row) (updateSec reloadSec : UInt32) :
    Keyed (start rows updateSec reloadSec).manager := by
  intro key i hi
  cases hi

theorem Keyed.reached {rows : List Row} {updateSec reloadSec : UInt32}
    (h : Runs (Store.step cfg columnDefault) (fun _ _ => True) (start rows updateSec reloadSec) s) :
    Keyed s.manager := by
  apply h.invariant (I := fun s => Keyed s.manager) _ (keyed_start rows updateSec reloadSec)
  intro s a t hs _ hstep
  exact hs.step hstep

/-! ## Services and each other's endpoints -/

/-- The registry holds the endpoint in some list. -/
def Holds (m : ServiceManager) (i : Id) : Prop := ∃ key, i ∈ m.listed key

/-- `getService` returns endpoints of the service asked for only. -/
def OwnOnly (m : ServiceManager) (n : Names) : Prop := ∀ ep ∈ m.getService n, ep.names = n

/-- No list holds endpoints of two services. -/
def Unshared (m : ServiceManager) : Prop :=
  ∀ key, ∀ i ∈ m.listed key, ∀ j ∈ m.listed key, i.names = j.names

/-- **A service is shown its own endpoints only if and only if the registry holds none of
another service whose names concatenate to the same string; services share a list if and
only if their names do.** -/
theorem separated_iff {rows : List Row} {updateSec reloadSec : UInt32}
    (h : Runs (Store.step cfg columnDefault) (fun _ _ => True) (start rows updateSec reloadSec) s) :
    (∀ n, OwnOnly s.manager n ↔
      ∀ i, Holds s.manager i → getKey i.names = getKey n → i.names = n) ∧
    (Unshared s.manager ↔
      ∀ i j, Holds s.manager i → Holds s.manager j → i.key = j.key → i.names = j.names) := by
  have hkeyed := Keyed.reached h
  constructor
  · intro n
    constructor
    · intro hown i hi hsame
      obtain ⟨key, hmem⟩ := hi
      have hlist : i ∈ s.manager.listed (getKey n) := by
        rw [← hsame, ← Id.key, hkeyed key i hmem]
        exact hmem
      obtain ⟨ep, hep, rfl⟩ := List.mem_map.mp hlist
      exact hown ep hep
    · intro hapart ep hep
      have hlist : ep.toId ∈ s.manager.listed (getKey n) := List.mem_map_of_mem hep
      exact hapart ep.toId ⟨getKey n, hlist⟩ (hkeyed (getKey n) ep.toId hlist)
  · constructor
    · intro hunshared i j hi hj hsame
      obtain ⟨key, hi⟩ := hi
      obtain ⟨key', hj⟩ := hj
      have hkeys : key = key' := by rw [← hkeyed key i hi, ← hkeyed key' j hj, hsame]
      exact hunshared key i hi j (hkeys ▸ hj)
    · intro hapart key i hi j hj
      refine hapart i j ⟨key, hi⟩ ⟨key, hj⟩ ?_
      rw [hkeyed key i hi, hkeyed key j hj]

/-- One service, asked for by its own names. -/
theorem separated_iff_of_one :
    ∃ s, Runs (Store.step .init none) (fun _ _ => True) (start [] 0 0) s ∧
      s.manager.getService oneName.names = [newEndPoint oneName 5] ∧
      ((∀ n, OwnOnly s.manager n ↔
        ∀ i, Holds s.manager i → getKey i.names = getKey n → i.names = n) ∧
      (Unshared s.manager ↔
        ∀ i j, Holds s.manager i → Holds s.manager j → i.key = j.key → i.names = j.names)) := by
  have hexec : ∃ s, Runs (Store.step .init none) (fun _ _ => True) (start [] 0 0) s ∧
      decide (s.manager.getService oneName.names = [newEndPoint oneName 5]) = true :=
    exists_runs_of_schedule (start [] 0 0) [.heartBeat oneName 5] _ (by decide)
  obtain ⟨s, hs, hstate⟩ := hexec
  exact ⟨s, hs, of_decide_eq_true hstate, separated_iff hs⟩

/-- The names cut at another place. -/
def cutElsewhere : Id := ⟨⟨"ab".toList, "c".toList, [], []⟩, "10.0.0.2".toList, 80⟩

/-- An endpoint of one service is shown to the clients of another. -/
theorem shown_to_other_service :
    ∃ s, Runs (Store.step .init none) (fun _ _ => True) (start [] 0 0) s ∧
      ¬ OwnOnly s.manager cutElsewhere.names ∧ ¬ Unshared s.manager := by
  have hexec : ∃ s, Runs (Store.step .init none) (fun _ _ => True) (start [] 0 0) s ∧
      decide (s.manager.listed cutElsewhere.key = [oneName, cutElsewhere]) = true :=
    exists_runs_of_schedule (start [] 0 0) [.heartBeat oneName 5, .heartBeat cutElsewhere 6] _
      (by decide)
  obtain ⟨s, hs, hstate⟩ := hexec
  have hlist := of_decide_eq_true hstate
  have hone : oneName ∈ s.manager.listed cutElsewhere.key := by simp [hlist]
  have hother : cutElsewhere ∈ s.manager.listed cutElsewhere.key := by simp [hlist]
  refine ⟨s, hs, ?_, ?_⟩
  · intro hown
    obtain ⟨ep, hep, hid⟩ := List.mem_map.mp hone
    have hnames : oneName.names = cutElsewhere.names := hid ▸ hown ep hep
    exact absurd hnames (by decide)
  · intro hunshared
    exact absurd (hunshared _ oneName hone cutElsewhere hother) (by decide)

/-! ## Once -/

/-- The address of an endpoint. -/
def address (i : Id) : Str × UInt32 := (i.ip, i.port)

/-- No list holds two endpoints with one address. -/
def ListsOnce (m : ServiceManager) : Prop := ∀ key, ((m.listed key).map address).Nodup

/-- The table behind the next flush has no row twice. -/
def TableOnce (columnDefault : Option UInt32) (s : Store) : Prop :=
  ((s.flushNewServiceToDB columnDefault none).rows.map (·.toId)).Nodup

instance (columnDefault : Option UInt32) (s : Store) : Decidable (TableOnce columnDefault s) :=
  inferInstanceAs (Decidable (List.Nodup _))

/-- No database operation of the call fails. -/
def Succeeds : Action → Prop
  | .heartBeat _ _ => True
  | .update _ io => io = {}
  | .loadFromDB _ _ selects => selects = true

/-- No two rows of one list have the same address. -/
def RowsApart (rows : List Row) : Prop :=
  (rows.map (fun row => (row.key, address row.toId))).Nodup

instance : (a : Action) → Decidable (Succeeds a)
  | .heartBeat _ _ => instDecidableTrue
  | .update _ _ => inferInstanceAs (Decidable (_ = _))
  | .loadFromDB _ _ _ => inferInstanceAs (Decidable (_ = _))

instance (rows : List Row) : Decidable (RowsApart rows) :=
  inferInstanceAs (Decidable (List.Nodup _))

/-- A heartbeat of an address that counts as new brings an endpoint that is neither in the
table nor in the queue, nor its address in the list; a load that swaps finds no two rows with
one address for the same list. -/
def Apart (cfg : RegistryConfig) (columnDefault : Option UInt32) (s : Store) : Action → Prop
  | .heartBeat e _ => s.manager.isNewService e = true →
      e ∉ s.ids ∧ address e ∉ (s.manager.listed e.key).map address
  | .update clock io => updateDue cfg s.manager (clock 0) = true →
      reloadDue cfg s.manager (clock 1) = true →
      ((s.flushes columnDefault io).fetched cfg (clock 3) io.selects).isSome →
      RowsApart (s.flushes columnDefault io).rows
  | .loadFromDB _ now selects => (s.fetched cfg now selects).isSome → RowsApart s.rows

instance (cfg : RegistryConfig) (columnDefault : Option UInt32) (s : Store) :
    (a : Action) → Decidable (Apart cfg columnDefault s a)
  | .heartBeat _ _ => inferInstanceAs (Decidable (_ → _ ∉ _ ∧ _ ∉ _))
  | .update _ _ => inferInstanceAs (Decidable (_ → _ → _ → RowsApart _))
  | .loadFromDB _ _ _ => inferInstanceAs (Decidable (_ → RowsApart _))

theorem ids_start (rows : List Row) (updateSec reloadSec : UInt32) :
    (start rows updateSec reloadSec).ids = rows.map (·.toId) := List.append_nil _

theorem tableOnce_iff : TableOnce columnDefault s ↔ s.ids.Nodup := by
  rw [TableOnce, map_toId_flushNewServiceToDB]

theorem TableOnce.rows (h : TableOnce columnDefault s) : (s.rows.map (·.toId)).Nodup :=
  (List.nodup_append.mp (tableOnce_iff.mp h)).1

theorem rowsApart_iff {rows : List Row} : RowsApart rows ↔
    ∀ key, ((Grouping.group Id.key (rows.map (·.toId)) key).map address).Nodup := by
  rw [Grouping.nodup_groups_iff, List.map_map]
  rfl

theorem listsOnce_loadFromDB_iff (h : ListsOnce s.manager) (start now : UInt32) (selects : Bool) :
    ListsOnce (s.loadFromDB cfg start now selects).manager ↔
      ((s.fetched cfg now selects).isSome → RowsApart s.rows) := by
  simp only [ListsOnce, listed_loadFromDB]
  split
  · rename_i hfetched
    rw [rowsApart_iff]
    exact (imp_iff_right hfetched).symm
  · rename_i hnone
    exact iff_of_true h (fun hfetched => absurd hfetched hnone)

/-- A heartbeat of a new address keeps the lists and the table without repetition if and only
if it repeats nothing. -/
theorem once_push_iff (hlists : ListsOnce s.manager) (htable : TableOnce columnDefault s)
    (hnew : s.manager.isNewService e = true) :
    (ListsOnce (s.manager.heartBeat e now) ∧
      TableOnce columnDefault { s with manager := s.manager.heartBeat e now }) ↔
    e ∉ s.ids ∧ address e ∉ (s.manager.listed e.key).map address := by
  have hlisted : ∀ key, (s.manager.heartBeat e now).listed key =
      s.manager.listed key ++ if key = e.key then [e] else [] := by
    intro key
    rw [heartBeat_of_new hnew]
    exact listed_push s.manager (newEndPoint e now) key
  have hids : Store.ids { s with manager := s.manager.heartBeat e now } = s.ids ++ [e] := by
    rw [heartBeat_of_new hnew]
    simp [Store.ids, addNewService, newEndPoint]
  have hlistsIff : ListsOnce (s.manager.heartBeat e now) ↔
      address e ∉ (s.manager.listed e.key).map address := by
    have hown : ((s.manager.listed e.key ++ [e]).map address).Nodup ↔
        address e ∉ (s.manager.listed e.key).map address := by
      rw [List.map_append, List.map_singleton, ← List.concat_eq_append, List.nodup_concat]
      exact and_iff_left (hlists e.key)
    constructor
    · intro h
      have hlist := h e.key
      rw [hlisted, if_pos rfl] at hlist
      exact hown.mp hlist
    · intro hfresh key
      rw [hlisted]
      split
      · rename_i hkey
        rw [hkey]
        exact hown.mpr hfresh
      · rw [List.append_nil]
        exact hlists key
  have htableIff : TableOnce columnDefault { s with manager := s.manager.heartBeat e now } ↔
      e ∉ s.ids := by
    rw [tableOnce_iff, hids, ← List.concat_eq_append, List.nodup_concat]
    exact and_iff_left (tableOnce_iff.mp htable)
  rw [hlistsIff, htableIff]
  exact and_comm

theorem once_step_iff (hlists : ListsOnce s.manager) (htable : TableOnce columnDefault s)
    (hsucceeds : Succeeds a) (hstep : Store.step cfg columnDefault s a = some t) :
    (ListsOnce t.manager ∧ TableOnce columnDefault t) ↔ Apart cfg columnDefault s a := by
  cases a with
  | heartBeat e now =>
    cases hstep
    cases hnew : s.manager.isNewService e with
    | true =>
      rw [once_push_iff hlists htable hnew]
      exact (imp_iff_right hnew).symm
    | false =>
      refine iff_of_true ?_ (fun htrue => by rw [hnew] at htrue; cases htrue)
      rw [heartBeat_of_known hnew]
      exact ⟨fun key => (listed_refresh s.manager e now key).symm ▸ hlists key, htable⟩
  | update clock io =>
    obtain rfl : io = {} := hsucceeds
    cases hstep
    have hids : (s.flushes columnDefault {}).ids = s.ids := by
      rw [flushes, ids_flushUpdateServiceToDB, ids_flushNewServiceToDB]
    rcases update_cases cfg columnDefault s clock {} with
      ⟨hupdate, hreload, heq⟩ | ⟨hdue, heq | heq⟩
    · rw [heq, listsOnce_loadFromDB_iff (s := s.flushes columnDefault {}) hlists, tableOnce_iff,
        ids_loadFromDB, hids]
      simp only [Apart, hupdate, hreload, true_imp_iff]
      exact and_iff_left (tableOnce_iff.mp htable)
    · rw [heq, tableOnce_iff, ids_flushNewServiceToDB]
      exact iff_of_true ⟨hlists, tableOnce_iff.mp htable⟩ (fun h₁ h₂ => absurd ⟨h₁, h₂⟩ hdue)
    · rw [heq, tableOnce_iff, hids]
      exact iff_of_true ⟨hlists, tableOnce_iff.mp htable⟩ (fun h₁ h₂ => absurd ⟨h₁, h₂⟩ hdue)
  | loadFromDB start now selects =>
    cases hstep
    rw [listsOnce_loadFromDB_iff hlists, tableOnce_iff, ids_loadFromDB]
    exact and_iff_left (tableOnce_iff.mp htable)

/-- **The registry holds each endpoint once as long as no heartbeat brings again what is on
its way into the table and no load finds an address twice for a list, and no longer.** -/
theorem endpoints_once {rows : List Row} {updateSec reloadSec : UInt32}
    (hrows : (rows.map (·.toId)).Nodup)
    (h : Runs (Store.step cfg columnDefault)
      (fun s a => Succeeds a ∧ Apart cfg columnDefault s a) (start rows updateSec reloadSec) s) :
    ListsOnce s.manager ∧ (s.rows.map (·.toId)).Nodup ∧
      ∀ a t, Succeeds a → Store.step cfg columnDefault s a = some t →
        ((ListsOnce t.manager ∧ TableOnce columnDefault t) ↔ Apart cfg columnDefault s a) := by
  have honce : ListsOnce s.manager ∧ TableOnce columnDefault s := by
    apply h.invariant (I := fun s => ListsOnce s.manager ∧ TableOnce columnDefault s)
    · intro s a t hs hg hstep
      exact (once_step_iff hs.1 hs.2 hg.1 hstep).mpr hg.2
    · refine ⟨fun _ => List.nodup_nil, ?_⟩
      rw [tableOnce_iff, ids_start]
      exact hrows
  exact ⟨honce.1, honce.2.rows, fun a t hsucceeds hstep =>
    once_step_iff honce.1 honce.2 hsucceeds hstep⟩

/-- An endpoint of the table, one that is new, and a reload that makes it known. -/
theorem endpoints_once_of_two :
    ∃ s, Runs (Store.step .init (some 0)) (fun s a => Succeeds a ∧ Apart .init (some 0) s a)
        (start [⟨oneName, some 0⟩] 0 0) s ∧
      s.rows.map (·.toId) = [oneName, cutElsewhere] ∧
      (ListsOnce s.manager ∧ (s.rows.map (·.toId)).Nodup ∧
        ∀ a t, Succeeds a → Store.step .init (some 0) s a = some t →
          ((ListsOnce t.manager ∧ TableOnce (some 0) t) ↔ Apart .init (some 0) s a)) := by
  have hexec : ∃ s, Runs (Store.step .init (some 0))
      (fun s a => Succeeds a ∧ Apart .init (some 0) s a) (start [⟨oneName, some 0⟩] 0 0) s ∧
      decide (s.rows.map (·.toId) = [oneName, cutElsewhere]) = true :=
    exists_runs_of_schedule (start [⟨oneName, some 0⟩] 0 0)
      [.loadFromDB 100 100 true, .heartBeat oneName 101, .heartBeat cutElsewhere 102,
        .update (fun _ => 200) {}, .heartBeat cutElsewhere 201] _ (by decide)
  obtain ⟨s, hs, hstate⟩ := hexec
  exact ⟨s, hs, of_decide_eq_true hstate, endpoints_once (by decide) hs⟩

/-- Two heartbeats of a new endpoint before the next reload. -/
theorem registered_twice :
    ∃ s, Runs (Store.step .init none) (fun _ a => Succeeds a) (start [] 0 0) s ∧
      ¬ ListsOnce s.manager ∧ ¬ TableOnce none s := by
  have hexec : ∃ s, Runs (Store.step .init none) (fun _ a => Succeeds a) (start [] 0 0) s ∧
      decide (¬ ((s.manager.listed oneName.key).map address).Nodup ∧ ¬ TableOnce none s) = true :=
    exists_runs_of_schedule (start [] 0 0) [.heartBeat oneName 1, .heartBeat oneName 2] _
      (by decide)
  obtain ⟨s, hs, hstate⟩ := hexec
  obtain ⟨hlist, htable⟩ := of_decide_eq_true hstate
  exact ⟨s, hs, fun honce => hlist (honce oneName.key), htable⟩

end Store

end StormNet.Registry
