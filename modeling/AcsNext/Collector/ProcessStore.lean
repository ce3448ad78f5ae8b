import AcsNext.Data.AssocMap
import AcsNext.Data.Runs

/-! The store of process objects, the requests for their information, and the service that
answers these requests while it waits for events. -/
namespace AcsNext.Collector
open AcsNext.Data

/-- A process object. `id` is its identity in memory, `refs` the number of shared pointers to it
outside the store, `threadInfo` what the inspector answered. It is `listed` until the body of its
destructor has run. -/
structure Process (T : Type*) where
  id : ℕ
  pid : ℕ
  refs : ℕ
  listed : Bool
  pendingResolution : Bool
  threadInfo : Option T
deriving DecidableEq

def Process.processInfoResolved {T : Type*} (processInfo : Option T) (p : Process T) : Process T :=
  { p with pendingResolution := false, threadInfo := processInfo }

/-- Where the service is in `ServePendingProcessRequests` or in the like loop of `CleanUp`. It
holds the mutex of the requests unless it is idle. When it is calling, it has locked a callback and
has not come to the end of `ProcessInfoResolved` yet, where its changes become visible. -/
inductive ServicePhase where
  | idle
  | serving
  | calling (id : ℕ)
deriving DecidableEq, Repr

/-- `objects` are those whose members are still there, the callback among them. The requests have
weak pointers to the callbacks, the cache has weak pointers to the objects. `resolved` lists the
objects whose callback was called, `misused` those that were gone before the end of the call. -/
structure ProcessWorld (T : Type*) where
  hasInstance : Bool
  cache : AssocMap ℕ ℕ
  objects : List (Process T)
  pendingProcessRequests : List (ℕ × ℕ)
  phase : ServicePhase
  nextId : ℕ
  resolved : List ℕ
  misused : List ℕ

/-- What `Fetch` comes to: it returns, or it waits for the mutex of the requests. -/
inductive Fetched where
  | object (id : ℕ)
  | null
  | waits
deriving DecidableEq, Repr

namespace ProcessWorld

variable {T : Type*}

def start (hasInstance : Bool) : ProcessWorld T := ⟨hasInstance, ∅, [], [], .idle, 0, [], []⟩

variable (w : ProcessWorld T)

def find? (id : ℕ) : Option (Process T) := w.objects.find? fun p => p.id == id

def modify (id : ℕ) (f : Process T → Process T) : ProcessWorld T :=
  { w with objects := w.objects.map fun p => if p.id = id then f p else p }

/-- A further shared pointer from one that is there. -/
def copy (id : ℕ) : ProcessWorld T :=
  w.modify id fun p => if 0 < p.refs then { p with refs := p.refs + 1 } else p

/-- `std::make_shared<Process>`, which asks the service for the information. -/
def create (pid : ℕ) : ProcessWorld T :=
  { w with
    objects := w.objects ++ [⟨w.nextId, pid, 1, true, w.hasInstance, none⟩]
    pendingProcessRequests :=
      w.pendingProcessRequests ++ if w.hasInstance then [(pid, w.nextId)] else []
    nextId := w.nextId + 1 }

/-- `ProcessStore::Fetch`. The weak pointer of an object without references cannot be locked. -/
def fetch (pid : ℕ) : ProcessWorld T × Fetched :=
  match w.cache.find? pid with
  | some id =>
    if (w.find? id).any fun p => decide (0 < p.refs) then (w.copy id, .object id) else (w, .null)
  | none =>
    if w.hasInstance && w.phase != .idle then (w, .waits)
    else ({ w.create pid with cache := w.cache.insert pid w.nextId }, .object w.nextId)

def release (id : ℕ) : ProcessWorld T := w.modify id fun p => { p with refs := p.refs - 1 }

/-- The body of the destructor, which runs once there are no references. -/
def unlist (id : ℕ) : ProcessWorld T :=
  match w.find? id with
  | none => w
  | some p =>
    if p.refs = 0 ∧ p.listed = true then
      { w.modify id fun p => { p with listed := false } with cache := w.cache.erase p.pid }
    else w

/-- After the body of the destructor the members go, the callback first. -/
def destroy (id : ℕ) : ProcessWorld T :=
  match w.find? id with
  | none => w
  | some p =>
    if p.refs = 0 ∧ p.listed = false then
      { w with objects := w.objects.filter fun q => q.id != id }
    else w

def popFront : ProcessWorld T :=
  { w with pendingProcessRequests := w.pendingProcessRequests.tail, phase := .serving }

/-- The end of the call of a callback that was locked, even if its object has gone meanwhile. -/
def callBack (id : ℕ) (info : Option T) : ProcessWorld T :=
  if (w.find? id).isSome then
    { w.modify id (Process.processInfoResolved info) with resolved := w.resolved ++ [id] }
  else { w with misused := w.misused ++ [id] }

/-- The next step of the service; `info` is what the inspector answers, nothing in `CleanUp`. -/
def service (info : Option T) : ProcessWorld T :=
  match w.phase with
  | .idle => { w with phase := .serving }
  | .serving =>
    match w.pendingProcessRequests with
    | [] => { w with phase := .idle }
    | request :: _ =>
      if (w.find? request.2).isSome then { w with phase := .calling request.2 } else w.popFront
  | .calling id => (w.callBack id info).popFront

end ProcessWorld

inductive ProcessOp (T : Type*) where
  | fetch (pid : ℕ)
  | copy (id : ℕ)
  | release (id : ℕ)
  | unlist (id : ℕ)
  | destroy (id : ℕ)
  | service (info : Option T)

def ProcessOp.isService {T : Type*} : ProcessOp T → Bool
  | .service _ => true
  | _ => false

namespace ProcessWorld

variable {T : Type*}

def step (w : ProcessWorld T) : ProcessOp T → ProcessWorld T
  | .fetch pid => (w.fetch pid).1
  | .copy id => w.copy id
  | .release id => w.release id
  | .unlist id => w.unlist id
  | .destroy id => w.destroy id
  | .service info => w.service info

def requested (w : ProcessWorld T) : List ℕ := w.pendingProcessRequests.map Prod.snd

/-- The objects whose callback was called, still there or not. -/
def called (w : ProcessWorld T) : List ℕ := w.resolved ++ w.misused

structure Consistent (w : ProcessWorld T) : Prop where
  fresh : ∀ p ∈ w.objects, p.id < w.nextId
  separate : (w.objects.map Process.id).Nodup
  held : ∀ p ∈ w.objects, 0 < p.refs → p.listed = true
  cached : ∀ pid id, w.cache.find? pid = some id ↔
    ∃ p ∈ w.objects, p.listed = true ∧ p.pid = pid ∧ p.id = id
  requestFresh : ∀ id ∈ w.requested, id < w.nextId
  requestOnce : w.requested.Nodup
  pending : ∀ p ∈ w.objects, p.pendingResolution = true ↔ p.id ∈ w.requested
  calledFresh : ∀ id ∈ w.called, id < w.nextId
  calledOnce : w.called.Nodup
  answered : ∀ id ∈ w.called, id ∉ w.requested
  unasked : w.hasInstance = true → ∀ p ∈ w.objects, p.pendingResolution = false →
    p.id ∈ w.resolved
  front : ∀ id, w.phase = .calling id → w.requested.head? = some id

theorem consistent_start (hasInstance : Bool) :
    (start hasInstance : ProcessWorld T).Consistent := by
  constructor <;> simp [start, requested, called]

section Objects

variable {w : ProcessWorld T} {id : ℕ} {p : Process T}

theorem mem_of_find? (h : w.find? id = some p) : p ∈ w.objects ∧ p.id = id :=
  ⟨List.mem_of_find?_eq_some h, by simpa using List.find?_some h⟩

theorem Consistent.find?_eq (h : w.Consistent) (hp : p ∈ w.objects) : w.find? p.id = some p := by
  cases hfind : w.find? p.id with
  | none => exact absurd (List.find?_eq_none.mp hfind p hp) (by simp)
  | some q =>
    obtain ⟨hq, hid⟩ := mem_of_find? hfind
    rw [List.inj_on_of_nodup_map h.separate hq hp hid]

theorem Consistent.cached_of_mem (h : w.Consistent) (hp : p ∈ w.objects)
    (hlisted : p.listed = true) : w.cache.find? p.pid = some p.id :=
  (h.cached p.pid p.id).mpr ⟨p, hp, hlisted, rfl, rfl⟩

theorem Consistent.eq_of_pid_eq (h : w.Consistent) {q : Process T} (hp : p ∈ w.objects)
    (hq : q ∈ w.objects) (hplisted : p.listed = true) (hqlisted : q.listed = true)
    (hpid : p.pid = q.pid) : p = q := by
  have hfind := h.cached_of_mem hp hplisted
  rw [hpid, h.cached_of_mem hq hqlisted, Option.some.injEq] at hfind
  exact List.inj_on_of_nodup_map h.separate hp hq hfind.symm

end Objects

/-- A change that keeps what the cache knows of an object. -/
structure Keeps (f : Process T → Process T) : Prop where
  id : ∀ p, (f p).id = p.id
  pid : ∀ p, (f p).pid = p.pid
  listed : ∀ p, (f p).listed = p.listed

section Modify

variable {w : ProcessWorld T} {id : ℕ} {f : Process T → Process T}

theorem mem_modify {q : Process T} :
    q ∈ (w.modify id f).objects ↔ ∃ p ∈ w.objects, (if p.id = id then f p else p) = q :=
  List.mem_map

theorem ids_modify (hid : ∀ p, (f p).id = p.id) :
    (w.modify id f).objects.map Process.id = w.objects.map Process.id := by
  simp only [modify, List.map_map]
  apply List.map_congr_left
  intro p _
  by_cases hp : p.id = id <;> simp [hp, hid p]

theorem fresh_modify (h : w.Consistent) (hid : ∀ p, (f p).id = p.id) :
    ∀ p ∈ (w.modify id f).objects, p.id < w.nextId := by
  intro q hq
  have hmem : q.id ∈ w.objects.map Process.id := by
    rw [← ids_modify hid]
    exact List.mem_map_of_mem hq
  obtain ⟨p, hp, hpid⟩ := List.mem_map.mp hmem
  rw [← hpid]
  exact h.fresh p hp

theorem exists_listed_modify (hf : Keeps f) (pid id' : ℕ) :
    (∃ p ∈ (w.modify id f).objects, p.listed = true ∧ p.pid = pid ∧ p.id = id') ↔
      ∃ p ∈ w.objects, p.listed = true ∧ p.pid = pid ∧ p.id = id' := by
  simp only [mem_modify, exists_exists_and_eq_and]
  refine exists_congr fun p => and_congr_right fun _ => ?_
  by_cases hp : p.id = id <;> simp [hp, hf.id p, hf.pid p, hf.listed p]

theorem held_modify (h : w.Consistent) (hf : Keeps f)
    (hheld : ∀ p ∈ w.objects, 0 < (f p).refs → p.listed = true) :
    ∀ p ∈ (w.modify id f).objects, 0 < p.refs → p.listed = true := by
  intro q hq hrefs
  obtain ⟨p, hp, rfl⟩ := mem_modify.mp hq
  split_ifs at hrefs ⊢
  · rw [hf.listed]
    exact hheld p hp hrefs
  · exact h.held p hp hrefs

variable (id) in
theorem pending_modify (h : w.Consistent) (hid : ∀ p, (f p).id = p.id)
    (hpending : ∀ p, (f p).pendingResolution = p.pendingResolution) :
    (∀ p ∈ (w.modify id f).objects, p.pendingResolution = true ↔ p.id ∈ w.requested) ∧
      (w.hasInstance = true → ∀ p ∈ (w.modify id f).objects, p.pendingResolution = false →
        p.id ∈ w.resolved) := by
  have hlike : ∀ q ∈ (w.modify id f).objects,
      ∃ p ∈ w.objects, q.id = p.id ∧ q.pendingResolution = p.pendingResolution := by
    intro q hq
    obtain ⟨p, hp, rfl⟩ := mem_modify.mp hq
    refine ⟨p, hp, ?_⟩
    split_ifs
    · exact ⟨hid p, hpending p⟩
    · exact ⟨rfl, rfl⟩
  constructor
  · intro q hq
    obtain ⟨p, hp, heq, hsame⟩ := hlike q hq
    rw [hsame, heq]
    exact h.pending p hp
  · intro hinstance q hq hresolved
    obtain ⟨p, hp, heq, hsame⟩ := hlike q hq
    rw [heq]
    exact h.unasked hinstance p hp (hsame ▸ hresolved)

/-- What changes neither the identity of an object nor its state of resolution. -/
theorem Consistent.modify (h : w.Consistent) (hf : Keeps f)
    (hpending : ∀ p, (f p).pendingResolution = p.pendingResolution)
    (hheld : ∀ p ∈ w.objects, 0 < (f p).refs → p.listed = true) :
    (w.modify id f).Consistent := by
  obtain ⟨hwaiting, hresolved⟩ := pending_modify id h hf.id hpending
  exact { h with
    fresh := fresh_modify h hf.id
    separate := by
      rw [ids_modify hf.id]
      exact h.separate
    held := held_modify h hf hheld
    cached := fun pid id' => (h.cached pid id').trans (exists_listed_modify hf pid id').symm
    pending := hwaiting
    unasked := hresolved }

end Modify

section Operations

variable {w : ProcessWorld T} (h : w.Consistent)

include h

theorem Consistent.copy (id : ℕ) : (w.copy id).Consistent := by
  have hf : Keeps fun p : Process T => if 0 < p.refs then { p with refs := p.refs + 1 } else p := by
    constructor <;> intro p <;> split_ifs <;> rfl
  apply h.modify hf
  · intro p
    split_ifs <;> rfl
  · intro p hp hrefs
    split_ifs at hrefs with hheld
    · exact h.held p hp hheld
    · exact absurd hrefs hheld

theorem Consistent.release (id : ℕ) : (w.release id).Consistent := by
  have hf : Keeps fun p : Process T => { p with refs := p.refs - 1 } :=
    ⟨fun _ => rfl, fun _ => rfl, fun _ => rfl⟩
  apply h.modify hf fun _ => rfl
  intro p hp hrefs
  exact h.held p hp (hrefs.trans_le (Nat.sub_le _ _))

omit h in
theorem requested_create (pid : ℕ) :
    (w.create pid).requested = w.requested ++ if w.hasInstance then [w.nextId] else [] := by
  cases hinstance : w.hasInstance <;> simp [requested, ProcessWorld.create, hinstance]

theorem Consistent.create {pid : ℕ} (hfind : w.cache.find? pid = none)
    (hphase : w.hasInstance = true → w.phase = .idle) :
    Consistent { w.create pid with cache := w.cache.insert pid w.nextId } := by
  have hnew : w.nextId ∉ w.objects.map Process.id := by
    intro hid
    obtain ⟨p, hp, heq⟩ := List.mem_map.mp hid
    exact (heq ▸ h.fresh p hp).false
  have hrequested : w.nextId ∉ w.requested := fun hid => (h.requestFresh _ hid).false
  have hcreated := w.requested_create pid
  constructor
  case fresh =>
    intro p hp
    rcases List.mem_append.mp hp with hp | hp
    · exact (h.fresh p hp).trans (Nat.lt_succ_self _)
    · rw [List.mem_singleton.mp hp]
      exact Nat.lt_succ_self _
  case separate =>
    change ((w.objects ++ [_]).map Process.id).Nodup
    rw [List.map_append]
    exact h.separate.append (List.nodup_singleton _) (List.disjoint_singleton.mpr hnew)
  case held =>
    intro p hp
    rcases List.mem_append.mp hp with hp | hp
    · exact h.held p hp
    · rw [List.mem_singleton.mp hp]
      exact fun _ => rfl
  case cached =>
    intro pid' id'
    change (w.cache.insert pid w.nextId).find? pid' = some id' ↔ ∃ p ∈ w.objects ++ [_], _
    simp only [List.mem_append, List.mem_singleton, or_and_right, exists_or, exists_eq_left,
      true_and, AssocMap.find?_insert, ← h.cached pid' id']
    by_cases hpid : pid = pid'
    · subst hpid
      simp [hfind]
    · simp [hpid]
  case requestFresh =>
    change ∀ id ∈ (w.create pid).requested, id < w.nextId + 1
    rw [hcreated]
    intro id hid
    rcases List.mem_append.mp hid with hid | hid
    · exact (h.requestFresh id hid).trans (Nat.lt_succ_self _)
    · split_ifs at hid
      · rw [List.mem_singleton.mp hid]
        exact Nat.lt_succ_self _
      · cases hid
  case requestOnce =>
    change (w.create pid).requested.Nodup
    rw [hcreated]
    split_ifs
    · exact h.requestOnce.append (List.nodup_singleton _) (List.disjoint_singleton.mpr hrequested)
    · simpa using h.requestOnce
  case pending =>
    intro p hp
    change p.pendingResolution = true ↔ p.id ∈ (w.create pid).requested
    rw [hcreated]
    rcases List.mem_append.mp hp with hp | hp
    · have hne : p.id ≠ w.nextId := (h.fresh p hp).ne
      rw [h.pending p hp]
      split_ifs <;> simp [hne]
    · rw [List.mem_singleton.mp hp]
      cases w.hasInstance <;> simp [hrequested]
  case calledFresh =>
    intro id hid
    exact (h.calledFresh id hid).trans (Nat.lt_succ_self _)
  case calledOnce =>
    exact h.calledOnce
  case answered =>
    intro id hid
    change id ∉ (w.create pid).requested
    rw [hcreated]
    have hne : id ≠ w.nextId := (h.calledFresh id hid).ne
    have hold := h.answered id hid
    split_ifs <;> simp [hne, hold]
  case unasked =>
    intro hinstance p hp hpending
    change w.hasInstance = true at hinstance
    rcases List.mem_append.mp hp with hp | hp
    · exact h.unasked hinstance p hp hpending
    · rw [List.mem_singleton.mp hp] at hpending
      simp [hinstance] at hpending
  case front =>
    intro id hid
    change w.phase = .calling id at hid
    change (w.create pid).requested.head? = some id
    have hfront := h.front id hid
    cases hinstance : w.hasInstance with
    | true =>
      rw [hphase hinstance] at hid
      cases hid
    | false =>
      rw [hcreated, hinstance]
      simpa using hfront

theorem Consistent.fetch (pid : ℕ) : (w.fetch pid).1.Consistent := by
  unfold ProcessWorld.fetch
  cases hfind : w.cache.find? pid with
  | some id =>
    dsimp only
    split_ifs
    · exact h.copy id
    · exact h
  | none =>
    dsimp only
    split_ifs with hwaits
    · exact h
    · apply h.create hfind
      intro hinstance
      simpa [hinstance] using hwaits

/-- The body of the destructor takes the entry of its own object out of the cache. -/
theorem Consistent.unlist (id : ℕ) : (w.unlist id).Consistent := by
  unfold ProcessWorld.unlist
  cases hfind : w.find? id with
  | none => exact h
  | some p =>
    obtain ⟨hp, rfl⟩ := mem_of_find? hfind
    dsimp only
    split_ifs with hlast
    · have hids (q : Process T) : ({ q with listed := false } : Process T).id = q.id := rfl
      obtain ⟨hwaiting, hresolved⟩ := pending_modify p.id h hids fun _ => rfl
      refine { h with
        fresh := fresh_modify h hids
        separate := by
          change (((w.modify p.id _).objects).map Process.id).Nodup
          rw [ids_modify hids]
          exact h.separate
        held := ?_
        cached := ?_
        pending := hwaiting
        unasked := hresolved }
      · intro q hq hrefs
        obtain ⟨q', hq', rfl⟩ := mem_modify.mp hq
        split_ifs at hrefs ⊢ with hid
        · rw [List.inj_on_of_nodup_map h.separate hq' hp hid] at hrefs
          exact absurd hrefs (by simp [hlast.1])
        · exact h.held q' hq' hrefs
      · intro pid id
        change (w.cache.erase p.pid).find? pid = some id ↔
          ∃ q ∈ (w.modify p.id fun q => { q with listed := false }).objects, _
        simp only [mem_modify, exists_exists_and_eq_and]
        rw [AssocMap.find?_erase]
        by_cases hpid : p.pid = pid
        · rw [if_pos (by simpa using hpid)]
          simp only [reduceCtorEq, false_iff, not_exists, not_and]
          intro q hq hlisted hqpid
          split_ifs at hlisted hqpid with hid
          -- the only listed object of the process is the one that is taken out
          have heq := h.eq_of_pid_eq hq hp hlisted hlast.2 (hqpid.trans hpid.symm)
          exact absurd (congrArg Process.id heq) hid
        · rw [if_neg (by simpa using hpid), h.cached pid id]
          refine exists_congr fun q => and_congr_right fun hq => ?_
          split_ifs with hid
          · have heq := List.inj_on_of_nodup_map h.separate hq hp hid
            simp [heq, hpid]
          · rfl
    · exact h

theorem Consistent.destroy (id : ℕ) : (w.destroy id).Consistent := by
  unfold ProcessWorld.destroy
  cases hfind : w.find? id with
  | none => exact h
  | some p =>
    obtain ⟨hp, rfl⟩ := mem_of_find? hfind
    dsimp only
    split_ifs with hlast
    · have hsub : ∀ q ∈ w.objects.filter (fun q => q.id != p.id), q ∈ w.objects :=
        fun q hq => (List.mem_filter.mp hq).1
      refine { h with
        fresh := fun q hq => h.fresh q (hsub q hq)
        separate := h.separate.sublist (List.filter_sublist.map _)
        held := fun q hq => h.held q (hsub q hq)
        cached := ?_
        pending := fun q hq => h.pending q (hsub q hq)
        unasked := fun hinstance q hq => h.unasked hinstance q (hsub q hq) }
      intro pid id
      rw [h.cached pid id]
      refine exists_congr fun q => ?_
      rw [List.mem_filter]
      constructor
      · intro hq
        obtain ⟨hq, hlisted, hpid, hid⟩ := hq
        refine ⟨⟨hq, ?_⟩, hlisted, hpid, hid⟩
        -- a listed object is not the one that goes
        by_contra hsame
        have heq : q = p := List.inj_on_of_nodup_map h.separate hq hp (by simpa using hsame)
        rw [heq, hlast.2] at hlisted
        cases hlisted
      · intro hq
        exact ⟨hq.1.1, hq.2⟩
    · exact h

theorem Consistent.setPhase {phase : ServicePhase}
    (hfront : ∀ id, phase = .calling id → w.requested.head? = some id) :
    Consistent { w with phase := phase } :=
  { h with front := hfront }

section Front

variable {id : ℕ} (hfront : w.requested.head? = some id)

include hfront

omit h in
theorem requested_popFront : w.requested = id :: w.popFront.requested := by
  have htail : w.popFront.requested = w.requested.tail := List.map_tail
  rw [htail]
  exact (List.cons_head?_tail hfront).symm

/-- The front request of an object that is gone. -/
theorem Consistent.popFront_of_gone (hgone : ∀ p ∈ w.objects, p.id ≠ id) :
    w.popFront.Consistent := by
  have hrequested := requested_popFront hfront
  have hsub : ∀ i ∈ w.popFront.requested, i ∈ w.requested := by
    intro i hi
    rw [hrequested]
    exact List.mem_cons_of_mem _ hi
  refine { h with
    requestFresh := fun i hi => h.requestFresh i (hsub i hi)
    requestOnce := (List.nodup_cons.mp (hrequested ▸ h.requestOnce)).2
    pending := ?_
    answered := fun i hi hmem => h.answered i hi (hsub i hmem)
    front := fun i hi => by cases hi }
  intro p hp
  rw [h.pending p hp, hrequested, List.mem_cons, or_iff_right (hgone p hp)]

end Front

omit h in
/-- When the object of the front request has been called, no request of a called object is left. -/
theorem called_nodup_cons {id : ℕ} {requested called : List ℕ}
    (hrequests : (id :: requested).Nodup) (hcalled : called.Nodup)
    (hanswered : ∀ i ∈ called, i ∉ id :: requested) :
    (id :: called).Nodup ∧ ∀ i ∈ id :: called, i ∉ requested := by
  refine ⟨List.nodup_cons.mpr ⟨fun hid => hanswered id hid List.mem_cons_self, hcalled⟩, ?_⟩
  intro i hi hmem
  rcases List.mem_cons.mp hi with rfl | hi
  · exact (List.nodup_cons.mp hrequests).1 hmem
  · exact hanswered i hi (List.mem_cons_of_mem _ hmem)

theorem Consistent.callBack {id : ℕ} (hfront : w.requested.head? = some id) (info : Option T) :
    (w.callBack id info).popFront.Consistent := by
  have hrequested := requested_popFront hfront
  have hnodup : (id :: w.popFront.requested).Nodup := hrequested ▸ h.requestOnce
  have hid : id < w.nextId := h.requestFresh id (by rw [hrequested]; exact List.mem_cons_self)
  obtain ⟨honce, hanswered⟩ := called_nodup_cons hnodup h.calledOnce
    fun i hi => hrequested ▸ h.answered i hi
  have hfresh : ∀ i ∈ id :: w.called, i < w.nextId :=
    List.forall_mem_cons.mpr ⟨hid, h.calledFresh⟩
  have hsub : ∀ i ∈ w.popFront.requested, i ∈ w.requested := by
    intro i hi
    rw [hrequested]
    exact List.mem_cons_of_mem _ hi
  unfold ProcessWorld.callBack
  split_ifs with hthere
  · have hf : Keeps (Process.processInfoResolved info) :=
      ⟨fun _ => rfl, fun _ => rfl, fun _ => rfl⟩
    have hcalled : (w.resolved ++ [id] ++ w.misused).Perm (id :: w.called) := by
      rw [List.append_assoc]
      exact List.perm_middle
    constructor
    case fresh => exact fresh_modify h hf.id
    case separate =>
      change ((w.modify id _).objects.map Process.id).Nodup
      rw [ids_modify hf.id]
      exact h.separate
    case held => exact held_modify h hf h.held
    case cached =>
      intro pid id'
      exact (h.cached pid id').trans (exists_listed_modify hf pid id').symm
    case requestFresh => exact fun i hi => h.requestFresh i (hsub i hi)
    case requestOnce => exact (List.nodup_cons.mp hnodup).2
    case pending =>
      intro q hq
      change q.pendingResolution = true ↔ q.id ∈ w.popFront.requested
      obtain ⟨p, hp, rfl⟩ := mem_modify.mp hq
      split_ifs with hpid
      · have hout : id ∉ w.popFront.requested := (List.nodup_cons.mp hnodup).1
        simp [Process.processInfoResolved, hpid, hout]
      · rw [h.pending p hp, hrequested, List.mem_cons, or_iff_right hpid]
    case calledFresh => exact fun i hi => hfresh i (hcalled.subset hi)
    case calledOnce => exact hcalled.nodup_iff.mpr honce
    case answered => exact fun i hi => hanswered i (hcalled.subset hi)
    case unasked =>
      intro hinstance q hq hresolved
      obtain ⟨p, hp, rfl⟩ := mem_modify.mp hq
      split_ifs at hresolved ⊢ with hpid
      · exact List.mem_append_right _ (by simp [Process.processInfoResolved, hpid])
      · exact List.mem_append_left _ (h.unasked hinstance p hp hresolved)
    case front =>
      intro i hi
      cases hi
  · have hgone : ∀ p ∈ w.objects, p.id ≠ id := by
      intro p hp hpid
      rw [← hpid, h.find?_eq hp] at hthere
      exact hthere rfl
    have hcalled : (w.resolved ++ (w.misused ++ [id])).Perm (id :: w.called) := by
      rw [← List.append_assoc]
      exact List.perm_append_singleton _ _
    exact { h.popFront_of_gone hfront hgone with
      calledFresh := fun i hi => hfresh i (hcalled.subset hi)
      calledOnce := hcalled.nodup_iff.mpr honce
      answered := fun i hi => hanswered i (hcalled.subset hi) }

theorem Consistent.service (info : Option T) : (w.service info).Consistent := by
  unfold ProcessWorld.service
  split
  · apply h.setPhase
    intro id hid
    cases hid
  · split
    · apply h.setPhase
      intro id hid
      cases hid
    · rename_i request rest hrequests
      have hfront : w.requested.head? = some request.2 := by
        rw [requested, hrequests]
        rfl
      split_ifs with hthere
      · apply h.setPhase
        intro id hid
        obtain rfl : request.2 = id := by simpa using hid
        exact hfront
      · apply h.popFront_of_gone hfront
        intro p hp hid
        rw [← hid, h.find?_eq hp] at hthere
        exact hthere rfl
  · rename_i id hphase
    exact h.callBack (h.front id hphase) info

theorem Consistent.step (op : ProcessOp T) : (w.step op).Consistent := by
  cases op with
  | fetch pid => exact h.fetch pid
  | copy id => exact h.copy id
  | release id => exact h.release id
  | unlist id => exact h.unlist id
  | destroy id => exact h.destroy id
  | service info => exact h.service info

end Operations

theorem consistent_run (hasInstance : Bool) (ops : List (ProcessOp T)) :
    (ops.foldl step (start hasInstance)).Consistent := by
  induction ops using List.reverseRecOn with
  | nil => exact consistent_start hasInstance
  | append_singleton ops op ih =>
    rw [List.foldl_append]
    exact ih.step op

/-- How many steps the service still needs for its pass. -/
def stepsLeft (w : ProcessWorld T) : ℕ :=
  match w.phase with
  | .idle => 0
  | .serving => 2 * w.requested.length + 1
  | .calling _ => 2 * w.requested.length

section Pass

variable {w : ProcessWorld T}

theorem Consistent.stepsLeft_pos (h : w.Consistent) (hphase : w.phase ≠ .idle) :
    0 < w.stepsLeft := by
  unfold stepsLeft
  split
  · exact absurd (by assumption) hphase
  · exact Nat.succ_pos _
  · rename_i id hcalling
    have hne : w.requested ≠ [] := by
      intro hnil
      have hfront := h.front id hcalling
      rw [hnil] at hfront
      cases hfront
    have hpos := List.length_pos_iff.mpr hne
    omega

/-- The service ends its pass with no request left, or comes nearer to its end. -/
theorem Consistent.stepsLeft_service (h : w.Consistent) (hphase : w.phase ≠ .idle)
    (info : Option T) :
    (w.service info).phase = .idle ∧ (w.service info).requested = [] ∨
      (w.service info).phase ≠ .idle ∧ (w.service info).stepsLeft < w.stepsLeft := by
  have hpop {v : ProcessWorld T} (hrequests : v.requested = w.requested)
      (hlength : 2 * w.requested.length ≤ w.stepsLeft) (hne : w.requested ≠ []) :
      v.popFront.phase ≠ .idle ∧ v.popFront.stepsLeft < w.stepsLeft := by
    have htail : v.popFront.requested = w.requested.tail := by
      rw [← hrequests]
      exact List.map_tail
    have hpos := List.length_pos_iff.mpr hne
    refine ⟨ServicePhase.noConfusion, ?_⟩
    change 2 * v.popFront.requested.length + 1 < w.stepsLeft
    rw [htail, List.length_tail]
    omega
  unfold ProcessWorld.service
  split
  · exact absurd (by assumption) hphase
  · rename_i hserving
    have hleft : w.stepsLeft = 2 * w.requested.length + 1 := by rw [stepsLeft, hserving]
    split
    · rename_i hrequests
      exact Or.inl ⟨rfl, by simp [requested, hrequests]⟩
    · rename_i request rest hrequests
      right
      split_ifs
      · refine ⟨ServicePhase.noConfusion, ?_⟩
        change 2 * w.requested.length < w.stepsLeft
        omega
      · exact hpop rfl (by omega) (by simp [requested, hrequests])
  · rename_i id hcalling
    have hleft : w.stepsLeft = 2 * w.requested.length := by rw [stepsLeft, hcalling]
    right
    apply hpop
    · unfold ProcessWorld.callBack
      split_ifs <;> rfl
    · omega
    · intro hnil
      have hpos := h.stepsLeft_pos hphase
      rw [hleft, hnil] at hpos
      exact hpos.false

/-- While the service is in a pass, nothing else is asked of it. -/
theorem pass_step (hphase : w.phase ≠ .idle) {op : ProcessOp T}
    (hop : op.isService = false) :
    (w.step op).phase = w.phase ∧ (w.step op).requested = w.requested := by
  cases op with
  | fetch pid =>
    unfold step fetch
    dsimp only
    split
    · split_ifs <;> exact ⟨rfl, rfl⟩
    · split_ifs with hwaits
      · exact ⟨rfl, rfl⟩
      · -- without an instance the new object asks for nothing
        have hinstance : w.hasInstance = false := by
          cases hinstance : w.hasInstance with
          | false => rfl
          | true => exact absurd (by simpa [hinstance] using hwaits) hphase
        exact ⟨rfl, by simp [requested, create, hinstance]⟩
  | copy id => exact ⟨rfl, rfl⟩
  | release id => exact ⟨rfl, rfl⟩
  | unlist id =>
    unfold step unlist
    dsimp only
    split
    · exact ⟨rfl, rfl⟩
    · split_ifs <;> exact ⟨rfl, rfl⟩
  | destroy id =>
    unfold step destroy
    dsimp only
    split
    · exact ⟨rfl, rfl⟩
    · split_ifs <;> exact ⟨rfl, rfl⟩
  | service info => cases hop

/-- Whatever comes in between, a pass of the service ends with no request left. -/
theorem pass_ends (h : w.Consistent) (hphase : w.phase ≠ .idle)
    {ops : List (ProcessOp T)} (hcount : w.stepsLeft ≤ ops.countP ProcessOp.isService) :
    ∃ before, before <+: ops ∧ (before.foldl step w).phase = .idle ∧
      (before.foldl step w).requested = [] := by
  induction ops generalizing w with
  | nil => exact absurd (h.stepsLeft_pos hphase) (by simpa using hcount)
  | cons op rest ih =>
    have hextend : (∃ before, before <+: rest ∧ (before.foldl step (w.step op)).phase = .idle ∧
        (before.foldl step (w.step op)).requested = []) →
        ∃ before, before <+: op :: rest ∧ (before.foldl step w).phase = .idle ∧
          (before.foldl step w).requested = [] := by
      rintro ⟨before, hbefore, hidle⟩
      exact ⟨op :: before, List.cons_prefix_cons.mpr ⟨rfl, hbefore⟩, hidle⟩
    cases hop : op.isService with
    | false =>
      obtain ⟨hsame, hrequested⟩ := pass_step hphase hop
      apply hextend
      apply ih (h.step op)
      · rw [hsame]
        exact hphase
      · unfold stepsLeft at hcount ⊢
        rw [hsame, hrequested]
        simpa [hop] using hcount
    | true =>
      obtain ⟨info, rfl⟩ : ∃ info, op = .service info := by
        cases op <;> simp_all [ProcessOp.isService]
      rw [List.countP_cons_of_pos hop] at hcount
      rcases h.stepsLeft_service hphase info with hended | ⟨hgoing, hless⟩
      · exact ⟨[.service info], List.cons_prefix_cons.mpr ⟨rfl, List.nil_prefix⟩, hended⟩
      · exact hextend (ih (h.service info) hgoing (Nat.le_of_lt_succ (hless.trans_le hcount)))

end Pass

structure Reliable (w : ProcessWorld T) : Prop where
  /-- `Fetch` returns a reference to an object of the process. It is null only while the last
  object of the process is destroyed, and waits only while the service holds the mutex. -/
  fetched : ∀ pid, match (w.fetch pid).2 with
    | .object id => ∃ p ∈ (w.fetch pid).1.objects, p.id = id ∧ p.pid = pid ∧ 0 < p.refs
    | .null => ∃ p ∈ w.objects, p.pid = pid ∧ p.refs = 0 ∧ p.listed = true
    | .waits => w.phase ≠ .idle
  /-- Referenced objects of the same process are the same object. -/
  unique : ∀ p ∈ w.objects, ∀ q ∈ w.objects, 0 < p.refs → 0 < q.refs → p.pid = q.pid → p = q
  /-- An object that waits has a request of its own, and no other has one. -/
  waiting : ∀ p ∈ w.objects, w.requested.count p.id = if p.pendingResolution then 1 else 0
  /-- No callback is called twice. -/
  calledOnce : w.called.Nodup
  /-- Nobody waits once there are no requests. -/
  answered : w.requested = [] → ∀ p ∈ w.objects,
    p.pendingResolution = false ∧ (w.hasInstance = true → p.id ∈ w.resolved)
  /-- There are none at the end of a pass of the service, which ends whatever comes in between. -/
  served : w.phase ≠ .idle → ∀ ops, w.stepsLeft ≤ ops.countP ProcessOp.isService →
    ∃ before, before <+: ops ∧ (before.foldl step w).phase = .idle ∧
      (before.foldl step w).requested = []

theorem Consistent.fetched {w : ProcessWorld T} (h : w.Consistent) (pid : ℕ) :
    match (w.fetch pid).2 with
    | .object id => ∃ p ∈ (w.fetch pid).1.objects, p.id = id ∧ p.pid = pid ∧ 0 < p.refs
    | .null => ∃ p ∈ w.objects, p.pid = pid ∧ p.refs = 0 ∧ p.listed = true
    | .waits => w.phase ≠ .idle := by
  unfold ProcessWorld.fetch
  cases hfind : w.cache.find? pid with
  | some id =>
    obtain ⟨p, hp, hlisted, rfl, rfl⟩ := (h.cached pid id).mp hfind
    simp only [h.find?_eq hp, Option.any_some, decide_eq_true_eq]
    by_cases hrefs : 0 < p.refs
    · simp only [if_pos hrefs]
      refine ⟨{ p with refs := p.refs + 1 }, mem_modify.mpr ⟨p, hp, ?_⟩, rfl, rfl, Nat.succ_pos _⟩
      rw [if_pos rfl, if_pos hrefs]
    · simp only [if_neg hrefs]
      exact ⟨p, hp, rfl, Nat.eq_zero_of_not_pos hrefs, hlisted⟩
  | none =>
    dsimp only
    by_cases hwaits : (w.hasInstance && w.phase != .idle) = true
    · simp only [if_pos hwaits]
      simpa using (Bool.and_eq_true_iff.mp hwaits).2
    · simp only [if_neg hwaits]
      exact ⟨⟨w.nextId, pid, 1, true, w.hasInstance, none⟩, List.mem_append_right _ (by simp), rfl,
        rfl, Nat.one_pos⟩

theorem Consistent.reliable {w : ProcessWorld T} (h : w.Consistent) : w.Reliable := by
  refine ⟨h.fetched, ?_, ?_, h.calledOnce, ?_, fun hphase ops => pass_ends h hphase⟩
  · intro p hp q hq hprefs hqrefs hpid
    exact h.eq_of_pid_eq hp hq (h.held p hp hprefs) (h.held q hq hqrefs) hpid
  · intro p hp
    have hpending := h.pending p hp
    cases hp' : p.pendingResolution with
    | true => exact List.count_eq_one_of_mem h.requestOnce (hpending.mp hp')
    | false =>
      rw [hp'] at hpending
      exact List.count_eq_zero_of_not_mem fun hmem => Bool.false_ne_true (hpending.mpr hmem)
  · intro hnil p hp
    have hresolved : p.pendingResolution = false := by
      by_contra hpending
      have hmem := (h.pending p hp).mp (by simpa using hpending)
      rw [hnil] at hmem
      cases hmem
    exact ⟨hresolved, fun hinstance => h.unasked hinstance p hp hresolved⟩

/-- No callback has run on an object that was gone, and the one that is called now is there. -/
def Sound (w : ProcessWorld T) : Prop :=
  w.misused = [] ∧ ∀ id, w.phase = .calling id → id ∈ w.objects.map Process.id

/-- The members of an object go between the locking of its callback and the end of the call. -/
def DestroysCalled (w : ProcessWorld T) (op : ProcessOp T) : Prop :=
  ∃ p ∈ w.objects, op = .destroy p.id ∧ w.phase = .calling p.id ∧ p.refs = 0 ∧ p.listed = false

section Sound

variable {w : ProcessWorld T}

theorem isSome_find?_iff {id : ℕ} : (w.find? id).isSome = true ↔ id ∈ w.objects.map Process.id := by
  simp [find?, List.find?_isSome]

theorem Sound.of_kept {v : ProcessWorld T} (hs : w.Sound) (hmisused : v.misused = w.misused)
    (hphase : v.phase = w.phase)
    (hids : ∀ id ∈ w.objects.map Process.id, id ∈ v.objects.map Process.id) : v.Sound := by
  refine ⟨hmisused.trans hs.1, fun id hid => hids id (hs.2 id ?_)⟩
  rw [← hphase]
  exact hid

theorem Sound.modify (hs : w.Sound) {id : ℕ} {f : Process T → Process T}
    (hid : ∀ p, (f p).id = p.id) : (w.modify id f).Sound := by
  refine Sound.of_kept hs (v := w.modify id f) rfl rfl ?_
  rw [ids_modify hid]
  exact fun _ hmem => hmem

theorem Sound.copy (hs : w.Sound) (id : ℕ) : (w.copy id).Sound := by
  apply hs.modify
  intro p
  split_ifs <;> rfl

theorem Sound.fetch (hs : w.Sound) (pid : ℕ) : (w.fetch pid).1.Sound := by
  unfold ProcessWorld.fetch
  split
  · split_ifs
    · exact hs.copy _
    · exact hs
  · split_ifs
    · exact hs
    · refine Sound.of_kept hs (v := { w.create pid with cache := _ }) rfl rfl ?_
      intro id hid
      change id ∈ (w.objects ++ [_]).map Process.id
      rw [List.map_append]
      exact List.mem_append_left _ hid

theorem Sound.unlist (hs : w.Sound) (id : ℕ) : (w.unlist id).Sound := by
  unfold ProcessWorld.unlist
  split
  · exact hs
  · split_ifs
    · exact hs.modify fun _ => rfl
    · exact hs

/-- Between two calls nothing can go wrong, and the callback that is called is there. -/
theorem Sound.service (hs : w.Sound) (info : Option T) : (w.service info).Sound := by
  have hquiet {v : ProcessWorld T} (hmisused : v.misused = w.misused)
      (hphase : ∀ id, v.phase ≠ .calling id) : v.Sound :=
    ⟨hmisused.trans hs.1, fun id hid => absurd hid (hphase id)⟩
  unfold ProcessWorld.service
  split
  · exact hquiet rfl fun _ => ServicePhase.noConfusion
  · split
    · exact hquiet rfl fun _ => ServicePhase.noConfusion
    · split_ifs with hthere
      · refine ⟨hs.1, fun id hid => ?_⟩
        cases hid
        exact isSome_find?_iff.mp hthere
      · exact hquiet rfl fun _ => ServicePhase.noConfusion
  · rename_i id hcalling
    refine hquiet ?_ fun _ => ServicePhase.noConfusion
    unfold ProcessWorld.callBack
    rw [if_pos (isSome_find?_iff.mpr (hs.2 id hcalling))]
    rfl

theorem Consistent.sound_destroy_iff (h : w.Consistent) (hs : w.Sound) (id : ℕ) :
    (w.destroy id).Sound ↔ ¬ w.DestroysCalled (.destroy id) := by
  unfold ProcessWorld.destroy
  cases hfind : w.find? id with
  | none =>
    refine iff_of_true hs ?_
    rintro ⟨p, hp, hop, -⟩
    cases hop
    rw [h.find?_eq hp] at hfind
    cases hfind
  | some p =>
    obtain ⟨hp, rfl⟩ := mem_of_find? hfind
    have hsame {q : Process T} (hq : q ∈ w.objects)
        (hop : (.destroy p.id : ProcessOp T) = .destroy q.id) : q = p := by
      have hid : p.id = q.id := by injection hop
      exact List.inj_on_of_nodup_map h.separate hq hp hid.symm
    dsimp only
    split_ifs with hlast
    · constructor
      · rintro hsound ⟨q, hq, hop, hcalling, -⟩
        obtain rfl := hsame hq hop
        obtain ⟨q', hq', hid⟩ := List.mem_map.mp (hsound.2 q.id hcalling)
        simp [hid] at hq'
      · intro hcalled
        refine ⟨hs.1, fun id hid => ?_⟩
        obtain ⟨q, hq, hqid⟩ := List.mem_map.mp (hs.2 id hid)
        refine List.mem_map.mpr ⟨q, List.mem_filter.mpr ⟨hq, ?_⟩, hqid⟩
        by_contra hgone
        have hpid : q.id = p.id := by simpa using hgone
        exact hcalled ⟨p, hp, rfl, by rw [← hpid, hqid]; exact hid, hlast⟩
    · refine iff_of_true hs ?_
      rintro ⟨q, hq, hop, -, hrefs⟩
      obtain rfl := hsame hq hop
      exact hlast hrefs

theorem Consistent.sound_step (h : w.Consistent) (hs : w.Sound) (op : ProcessOp T) :
    (w.step op).Sound ↔ ¬ w.DestroysCalled op := by
  have hother (hop : ∀ id, op ≠ .destroy id) (hsound : (w.step op).Sound) :
      (w.step op).Sound ↔ ¬ w.DestroysCalled op := by
    refine iff_of_true hsound ?_
    rintro ⟨p, -, heq, -⟩
    exact hop p.id heq
  cases op with
  | fetch pid => exact hother (fun _ heq => by cases heq) (hs.fetch pid)
  | copy id => exact hother (fun _ heq => by cases heq) (hs.copy id)
  | release id => exact hother (fun _ heq => by cases heq) (hs.modify fun _ => rfl)
  | unlist id => exact hother (fun _ heq => by cases heq) (hs.unlist id)
  | destroy id => exact h.sound_destroy_iff hs id
  | service info => exact hother (fun _ heq => by cases heq) (hs.service info)

end Sound

-- the service has locked the callback when the last reference is given up
example : ([.fetch 7, .service none, .service none, .release 0, .unlist 0, .destroy 0,
    .service none].foldl step (start true : ProcessWorld Unit)).misused = [0] := by
  decide

end ProcessWorld

end AcsNext.Collector
