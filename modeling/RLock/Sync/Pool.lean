import Mathlib.Data.List.Nodup
import Mathlib.Logic.Function.Basic
import RLock.Lib.Machine

/-!
# RLock — the connection pool

`ConnectionPool` and `PooledConnection` of the sync backend, as a machine in which any
number of threads check connections out, run commands on them and drop them. A
connection is a number, given out in the order the connections are made; the pool's
mutex makes each access to the idle list one event. What the mutex does not protect is
an event of its own: the connect after an empty checkout, and the step between the test
`is_open` of a checkin and the push.

The invariant says that a connection is in one place. It is either idle, once, or owned
by one handle, and whoever made it counts it. An idle connection is open, and so is one
on its way back: it was tested before, and nobody uses it in between. The invariant is
kept part by part, one lemma for each thing that can happen to a connection
(`Inv.give`, `Inv.pop`, `Inv.push`, `Inv.make`, `Inv.close`).

A connection that was taken out after an error, or was found closed when it was
returned, is nowhere any more (`Gone`). Nothing ever brings it back, since connections
come from nowhere but `connect`, which makes a new one.

## Results

* `Inv.step` — a connection is in one place, and idle connections are open.
* `placed_next` — only `connect` puts a connection anywhere.
* `Gone.step` — what is gone stays gone.
* `pool_hygiene` — the laws of the pool, in every state any number of threads reach.
-/

namespace RLock.Sync

abbrev Conn := Nat

/-- Where one `PooledConnection` stands. -/
inductive Handle
  | absent
  /-- in `checkout`, no connection was idle and `connect` runs -/
  | connecting
  /-- checked out -/
  | owned (conn : Conn)
  /-- in the closure of `run` -/
  | running (conn : Conn)
  /-- the closure returned; after an error `conn.take()` left nothing -/
  | ran (conn : Option Conn)
  /-- in `checkin`, the connection was open and the mutex is next -/
  | returning (conn : Conn)
  deriving DecidableEq, Repr

/-- The connection a handle owns. -/
def Handle.conn : Handle → Option Conn
  | .owned c => some c
  | .running c => some c
  | .ran conn => conn
  | .returning c => some c
  | _ => none

/-- The pool and the connections that are checked out of it, one handle for
each `PooledConnection` there ever was. -/
structure Pool where
  /-- `idle`; the last element of the vector comes first. -/
  idle : List Conn
  handles : Nat → Handle
  /-- `conn.is_open()` -/
  isOpen : Conn → Bool
  /-- How many connections were made. -/
  made : Nat

/-- What a thread does with its handle `i`, and how it comes out. -/
inductive PoolEvent
  | checkout (i : Nat)
  | connected (i : Nat) (ok : Bool)
  | run (i : Nat)
  /-- I/O on the connection finds it closed. -/
  | close (i : Nat)
  | finish (i : Nat) (ok : Bool)
  | drop (i : Nat)
  | push (i : Nat)
  deriving DecidableEq, Repr

namespace Pool

/-- `ConnectionPool::new` -/
def new : Pool where
  idle := []
  handles := fun _ => .absent
  isOpen := fun _ => true
  made := 0

/-- The handle `i` moves on. -/
def setHandle (s : Pool) (i : Nat) (h : Handle) : Pool :=
  { s with handles := Function.update s.handles i h }

/-- What may happen next: a handle goes from `checkout` to `run`, any number of times, and to its
drop. -/
def enabled (s : Pool) : PoolEvent → Bool
  | .checkout i => s.handles i = .absent
  | .connected i _ => s.handles i = .connecting
  | .run i => match s.handles i with
    | .owned _ => true
    | _ => false
  | .close i => match s.handles i with
    | .owned _ => true
    | .running _ => true
    | _ => false
  | .finish i _ => match s.handles i with
    | .running _ => true
    | _ => false
  | .drop i => match s.handles i with
    | .owned _ => true
    | .ran _ => true
    | _ => false
  | .push i => match s.handles i with
    | .returning _ => true
    | _ => false

/-- The step of an event. A `run` that fails takes the connection out of its handle, and a checkin
that finds no room drops it. -/
def next (maxIdle : Nat) (s : Pool) : PoolEvent → Pool
  | .checkout i => match s.idle with
    | c :: rest => { s with idle := rest }.setHandle i (.owned c)
    | [] => s.setHandle i .connecting
  | .connected i true =>
    { s with
      made := s.made + 1
      isOpen := Function.update s.isOpen s.made true }.setHandle i (.owned s.made)
  | .connected i false => s.setHandle i .absent
  | .run i => match s.handles i with
    | .owned c => s.setHandle i (.running c)
    | _ => s
  | .close i => match (s.handles i).conn with
    | some c => { s with isOpen := Function.update s.isOpen c false }
    | none => s
  | .finish i ok => match s.handles i with
    | .running c => s.setHandle i (.ran (if ok then some c else none))
    | _ => s
  -- `Drop` takes the connection, if it is still there, and checks it in
  | .drop i => match (s.handles i).conn with
    | some c => s.setHandle i (if s.isOpen c then .returning c else .absent)
    | none => s.setHandle i .absent
  | .push i => match s.handles i with
    | .returning c =>
      if s.idle.length < maxIdle then { s with idle := c :: s.idle }.setHandle i .absent
      else s.setHandle i .absent
    | _ => s

end Pool

/-- The events of a failed connect and of a failed `run`. -/
def PoolEvent.fails (s : Pool) : PoolEvent → Bool
  | .connected _ ok => !ok
  | .finish _ ok => !ok
  -- the drop of what a failed `run` left
  | .drop i => s.handles i = .ran none
  | _ => false

/-- The pool with `max_idle_connections`. -/
def pool (maxIdle : Nat) : Machine Pool PoolEvent where
  init := fun s => s = Pool.new
  enabled := fun s e => s.enabled e = true
  next := Pool.next maxIdle

instance (maxIdle : Nat) (s : Pool) (e : PoolEvent) : Decidable ((pool maxIdle).enabled s e) :=
  inferInstanceAs (Decidable (s.enabled e = true))

namespace Pool

-- ---------------------------------------------------------------------------
-- One place for each connection
-- ---------------------------------------------------------------------------

/-- Some `PooledConnection` owns the connection. -/
def Held (s : Pool) (c : Conn) : Prop := ∃ i, (s.handles i).conn = some c

/-- Each connection in one place, and whatever is or goes back is open. -/
structure Inv (maxIdle : Nat) (s : Pool) : Prop where
  capacity : s.idle.length ≤ maxIdle
  nodup : s.idle.Nodup
  idleOpen : ∀ c ∈ s.idle, s.isOpen c = true
  idleMade : ∀ c ∈ s.idle, c < s.made
  heldMade : ∀ i c, (s.handles i).conn = some c → c < s.made
  away : ∀ i c, (s.handles i).conn = some c → c ∉ s.idle
  once : ∀ i j c, (s.handles i).conn = some c → (s.handles j).conn = some c → i = j
  returningOpen : ∀ i c, s.handles i = .returning c → s.isOpen c = true

variable {maxIdle : Nat} {s t : Pool} {i j : Nat} {c : Conn}

/-- A handle that moves leaves the idle connections alone. -/
@[simp] theorem setHandle_idle (s : Pool) (i : Nat) (h : Handle) :
    (s.setHandle i h).idle = s.idle := rfl

@[simp] theorem setHandle_isOpen (s : Pool) (i : Nat) (h : Handle) :
    (s.setHandle i h).isOpen = s.isOpen := rfl

@[simp] theorem setHandle_made (s : Pool) (i : Nat) (h : Handle) :
    (s.setHandle i h).made = s.made := rfl

theorem setHandle_handles (s : Pool) (i j : Nat) (h : Handle) :
    (s.setHandle i h).handles j = if j = i then h else s.handles j := by
  show Function.update s.handles i h j = _
  by_cases hj : j = i
  · subst hj
    rw [Function.update_self, if_pos rfl]
  · rw [Function.update_of_ne hj, if_neg hj]

theorem inv_new : Inv maxIdle new where
  capacity := Nat.zero_le _
  nodup := List.nodup_nil
  idleOpen := fun _ hMem => absurd hMem List.not_mem_nil
  idleMade := fun _ hMem => absurd hMem List.not_mem_nil
  heldMade := fun _ _ hConn => (nomatch hConn)
  away := fun _ _ hConn => (nomatch hConn)
  once := fun _ _ _ hConn => (nomatch hConn)
  returningOpen := fun _ _ hHandle => (nomatch hHandle)

/-- A handle moves on, keeping its connection or giving it up. -/
theorem Inv.setHandle (hInv : Inv maxIdle s) {h : Handle}
    (hConn : ∀ c, h.conn = some c → (s.handles i).conn = some c)
    (hOpen : ∀ c, h = .returning c → s.isOpen c = true) : Inv maxIdle (s.setHandle i h) := by
  -- what a handle owns now it owned before
  have hBack : ∀ j c, ((s.setHandle i h).handles j).conn = some c →
      (s.handles j).conn = some c := by
    intro j c hj
    rw [setHandle_handles] at hj
    split at hj
    · rename_i hEq
      rw [hEq]
      exact hConn c hj
    · exact hj
  refine ⟨hInv.capacity, hInv.nodup, hInv.idleOpen, hInv.idleMade,
    fun j c hj => hInv.heldMade j c (hBack j c hj), fun j c hj => hInv.away j c (hBack j c hj),
    fun j k c hj hk => hInv.once j k c (hBack j c hj) (hBack k c hk), fun j c hj => ?_⟩
  rw [setHandle_handles] at hj
  split at hj
  · exact hOpen c hj
  · exact hInv.returningOpen j c hj

/-- An open handle is given a connection that is in no other place. -/
theorem Inv.give (hInv : Inv maxIdle s) (hMade : c < s.made) (hAway : c ∉ s.idle)
    (hFree : ¬ s.Held c) : Inv maxIdle (s.setHandle i (.owned c)) := by
  -- the handle has the new one, every other what it had
  have hBack : ∀ j d, ((s.setHandle i (.owned c)).handles j).conn = some d →
      (j = i ∧ d = c) ∨ (j ≠ i ∧ (s.handles j).conn = some d) := by
    intro j d hj
    rw [setHandle_handles] at hj
    split at hj
    · exact Or.inl ⟨‹_›, (Option.some.inj hj).symm⟩
    · exact Or.inr ⟨‹_›, hj⟩
  refine ⟨hInv.capacity, hInv.nodup, hInv.idleOpen, hInv.idleMade, fun j d hj => ?_,
    fun j d hj => ?_, fun j k d hj hk => ?_, fun j d hj => ?_⟩
  · rcases hBack j d hj with ⟨-, rfl⟩ | ⟨-, hOld⟩
    · exact hMade
    · exact hInv.heldMade j d hOld
  · rcases hBack j d hj with ⟨-, rfl⟩ | ⟨-, hOld⟩
    · exact hAway
    · exact hInv.away j d hOld
  -- two handles with one connection: neither is the new one, or nobody had it
  · rcases hBack j d hj with ⟨rfl, rfl⟩ | ⟨-, hOldJ⟩
    · rcases hBack k d hk with ⟨rfl, -⟩ | ⟨-, hOldK⟩
      · rfl
      · exact absurd ⟨k, hOldK⟩ hFree
    · rcases hBack k d hk with ⟨rfl, rfl⟩ | ⟨-, hOldK⟩
      · exact absurd ⟨j, hOldJ⟩ hFree
      · exact hInv.once j k d hOldJ hOldK
  · rw [setHandle_handles] at hj
    split at hj
    · cases hj
    · exact hInv.returningOpen j d hj

/-- The idle connection that comes first is taken. -/
theorem Inv.pop {rest : List Conn} (hInv : Inv maxIdle s) (hIdle : s.idle = c :: rest) :
    Inv maxIdle { s with idle := rest } := by
  have hSub : ∀ d ∈ rest, d ∈ s.idle := fun d hd => hIdle ▸ List.mem_cons_of_mem c hd
  -- there is one less
  have hLength : rest.length + 1 ≤ maxIdle := by
    have := hInv.capacity
    rwa [hIdle, List.length_cons] at this
  have hNodup := hInv.nodup
  rw [hIdle, List.nodup_cons] at hNodup
  exact ⟨by show rest.length ≤ _; omega, hNodup.2, fun d hd => hInv.idleOpen d (hSub d hd),
    fun d hd => hInv.idleMade d (hSub d hd), hInv.heldMade,
    fun j d hj hd => hInv.away j d hj (hSub d hd), hInv.once, hInv.returningOpen⟩

/-- A connection that nobody has goes back, if there is room. -/
theorem Inv.push (hInv : Inv maxIdle s) (hRoom : s.idle.length < maxIdle) (hMade : c < s.made)
    (hOpen : s.isOpen c = true) (hAway : c ∉ s.idle) (hFree : ¬ s.Held c) :
    Inv maxIdle { s with idle := c :: s.idle } := by
  refine ⟨hRoom, List.nodup_cons.mpr ⟨hAway, hInv.nodup⟩, fun d hd => ?_, fun d hd => ?_,
    hInv.heldMade, fun j d hj hd => ?_, hInv.once, hInv.returningOpen⟩
  · rcases List.mem_cons.mp hd with rfl | hd
    · exact hOpen
    · exact hInv.idleOpen d hd
  · rcases List.mem_cons.mp hd with rfl | hd
    · exact hMade
    · exact hInv.idleMade d hd
  · rcases List.mem_cons.mp hd with rfl | hd
    · exact hFree ⟨j, hj⟩
    · exact hInv.away j d hj hd

/-- A new connection is open and nowhere yet. -/
theorem Inv.make (hInv : Inv maxIdle s) :
    Inv maxIdle { s with made := s.made + 1, isOpen := Function.update s.isOpen s.made true } := by
  -- what was open is open
  have hKeep : ∀ d, s.isOpen d = true → Function.update s.isOpen s.made true d = true := by
    intro d hd
    by_cases hNew : d = s.made
    · rw [hNew, Function.update_self]
    · rwa [Function.update_of_ne hNew]
  exact ⟨hInv.capacity, hInv.nodup, fun d hd => hKeep d (hInv.idleOpen d hd),
    fun d hd => Nat.lt_succ_of_lt (hInv.idleMade d hd),
    fun j d hj => Nat.lt_succ_of_lt (hInv.heldMade j d hj), hInv.away, hInv.once,
    fun j d hj => hKeep d (hInv.returningOpen j d hj)⟩

/-- A connection is only found closed while somebody uses it. -/
theorem Inv.close (hInv : Inv maxIdle s) (hConn : (s.handles i).conn = some c)
    (hUsed : s.handles i ≠ .returning c) :
    Inv maxIdle { s with isOpen := Function.update s.isOpen c false } := by
  refine ⟨hInv.capacity, hInv.nodup, fun d hd => ?_, hInv.idleMade, hInv.heldMade, hInv.away,
    hInv.once, fun j d hj => ?_⟩
  -- it is not idle, since somebody has it
  · have hOther : d ≠ c := fun hEq => hInv.away i c hConn (hEq ▸ hd)
    show Function.update s.isOpen c false d = true
    rw [Function.update_of_ne hOther]
    exact hInv.idleOpen d hd
  · have hOther : d ≠ c := by
      rintro rfl
      -- nor on its way back, since the only one who has it uses it
      have hSame : j = i := hInv.once j i d (by rw [hj]; rfl) hConn
      rw [hSame] at hj
      exact hUsed hj
    show Function.update s.isOpen c false d = true
    rw [Function.update_of_ne hOther]
    exact hInv.returningOpen j d hj

/-- Nobody has a connection that is still to be made. -/
theorem free_of_not_made (hInv : Inv maxIdle s) : ¬ s.Held s.made := by
  rintro ⟨j, hj⟩
  exact absurd (hInv.heldMade j _ hj) (Nat.lt_irrefl _)

/-- **One place for each connection** is kept by every event. -/
theorem Inv.step {e : PoolEvent} (hInv : Inv maxIdle s) (hEn : s.enabled e = true) :
    Inv maxIdle (s.next maxIdle e) := by
  cases e with
  | checkout i =>
    unfold next
    dsimp only
    split
    · rename_i c rest hIdle
      have hHead : c ∈ s.idle := hIdle ▸ List.mem_cons_self ..
      -- what was taken is in no other place
      have hRest : c ∉ rest := by
        have hNodup := hInv.nodup
        rw [hIdle, List.nodup_cons] at hNodup
        exact hNodup.1
      exact (hInv.pop hIdle).give (hInv.idleMade c hHead) hRest
        fun ⟨j, hj⟩ => hInv.away j c hj hHead
    · exact hInv.setHandle (fun c hc => (nomatch hc)) fun c hc => (nomatch hc)
  | connected i ok =>
    -- a failed connect leaves the handle absent
    cases ok with
    | true =>
      exact hInv.make.give (Nat.lt_succ_self _)
        (fun hMem => absurd (hInv.idleMade _ hMem) (Nat.lt_irrefl _)) (free_of_not_made hInv)
    | false => exact hInv.setHandle (fun c hc => (nomatch hc)) fun c hc => (nomatch hc)
  | run i =>
    unfold next
    dsimp only
    split
    · rename_i c hHandle
      refine hInv.setHandle (fun d hd => ?_) fun d hd => (nomatch hd)
      rw [hHandle]
      exact hd
    · exact hInv
  | close i =>
    unfold next
    dsimp only
    split
    · rename_i c hConn
      -- a handle that returns its connection does no I/O
      refine hInv.close hConn fun hReturning => ?_
      simp [enabled, hReturning] at hEn
    · exact hInv
  | finish i ok =>
    unfold next
    dsimp only
    split
    · rename_i c hHandle
      refine hInv.setHandle (fun d hd => ?_) fun d hd => (nomatch hd)
      rw [hHandle]
      cases ok with
      | true => exact hd
      | false => cases hd
    · exact hInv
  | drop i =>
    unfold next
    dsimp only
    split
    · rename_i c hConn
      refine hInv.setHandle (fun d hd => ?_) fun d hd => ?_
      · rw [hConn]
        split at hd
        · exact hd
        · cases hd
      -- it goes back only if it was open
      · split at hd
        · cases hd
          assumption
        · cases hd
    · exact hInv.setHandle (fun c hc => (nomatch hc)) fun c hc => (nomatch hc)
  | push i =>
    unfold next
    dsimp only
    split
    · rename_i c hHandle
      have hConn : (s.handles i).conn = some c := by
        rw [hHandle]
        rfl
      have hGone : Inv maxIdle (s.setHandle i .absent) :=
        hInv.setHandle (fun c hc => (nomatch hc)) fun c hc => (nomatch hc)
      split
      · rename_i hRoom
        refine hGone.push hRoom (hInv.heldMade i c hConn) (hInv.returningOpen i c hHandle)
          (hInv.away i c hConn) ?_
        -- no other handle had it
        rintro ⟨j, hj⟩
        rw [setHandle_handles] at hj
        split at hj
        · cases hj
        · rename_i hOther
          exact hOther (hInv.once j i c hj hConn)
      · exact hGone
    · exact hInv

theorem inv_of_reachable (h : (pool maxIdle).Reachable s) : Inv maxIdle s := by
  refine h.invariant (fun s hInit => ?_) fun s e hInv hEn => hInv.step hEn
  rw [hInit]
  exact inv_new

-- ---------------------------------------------------------------------------
-- What is gone
-- ---------------------------------------------------------------------------

/-- The connection is idle or owned by a `PooledConnection`. -/
def Placed (c : Conn) (s : Pool) : Prop := c ∈ s.idle ∨ s.Held c

/-- A handle that moves brings no connection from anywhere else. -/
theorem placed_setHandle {h : Handle} (hPlaced : Placed c (s.setHandle i h))
    (hConn : ∀ d, h.conn = some d → Placed d s) : Placed c s := by
  rcases hPlaced with hIdle | ⟨j, hj⟩
  · exact Or.inl hIdle
  · rw [setHandle_handles] at hj
    split at hj
    · exact hConn c hj
    · exact Or.inr ⟨j, hj⟩

/-- **Connections come from nowhere but `connect`.** -/
theorem placed_next {e : PoolEvent} (h : Placed c (s.next maxIdle e)) :
    Placed c s ∨ c = s.made := by
  cases e with
  | checkout i =>
    unfold next at h
    dsimp only at h
    split at h
    · rename_i d rest hIdle
      -- a checkout moves a connection from the idle ones to a handle
      have hSub : ∀ x, Placed x { s with idle := rest } → Placed x s := fun x hx =>
        hx.imp_left fun hMem => hIdle ▸ List.mem_cons_of_mem d hMem
      rcases h with hMem | ⟨j, hj⟩
      · exact Or.inl (hSub c (Or.inl hMem))
      · rw [setHandle_handles] at hj
        split at hj
        · cases hj
          exact Or.inl (Or.inl (hIdle ▸ List.mem_cons_self ..))
        · exact Or.inl (Or.inr ⟨j, hj⟩)
    · exact Or.inl (placed_setHandle h fun d hd => (nomatch hd))
  | connected i ok =>
    cases ok with
    | true =>
      rcases h with hMem | ⟨j, hj⟩
      · exact Or.inl (Or.inl hMem)
      · unfold next at hj
        dsimp only at hj
        rw [setHandle_handles] at hj
        split at hj
        · exact Or.inr (Option.some.inj hj).symm
        · exact Or.inl (Or.inr ⟨j, hj⟩)
    | false => exact Or.inl (placed_setHandle h fun d hd => (nomatch hd))
  | run i =>
    unfold next at h
    dsimp only at h
    split at h
    · rename_i d hHandle
      refine Or.inl (placed_setHandle h fun x hx => Or.inr ⟨i, ?_⟩)
      rw [hHandle]
      exact hx
    · exact Or.inl h
  | close i =>
    unfold next at h
    dsimp only at h
    split at h
    · exact Or.inl h
    · exact Or.inl h
  | finish i ok =>
    unfold next at h
    dsimp only at h
    split at h
    · rename_i d hHandle
      refine Or.inl (placed_setHandle h fun x hx => Or.inr ⟨i, ?_⟩)
      rw [hHandle]
      cases ok with
      | true => exact hx
      | false => cases hx
    · exact Or.inl h
  | drop i =>
    unfold next at h
    dsimp only at h
    split at h
    · rename_i d hConn
      refine Or.inl (placed_setHandle h fun x hx => Or.inr ⟨i, ?_⟩)
      rw [hConn]
      split at hx
      · exact hx
      · cases hx
    · exact Or.inl (placed_setHandle h fun d hd => (nomatch hd))
  | push i =>
    unfold next at h
    dsimp only at h
    split at h
    · rename_i d hHandle
      have hConn : (s.handles i).conn = some d := by
        rw [hHandle]
        rfl
      split at h
      -- a checkin moves it back
      · have hOld := placed_setHandle h fun x hx => (nomatch hx)
        rcases hOld with hMem | hHeld
        · rcases List.mem_cons.mp hMem with rfl | hMem
          · exact Or.inl (Or.inr ⟨i, hConn⟩)
          · exact Or.inl (Or.inl hMem)
        · exact Or.inl (Or.inr hHeld)
      · exact Or.inl (placed_setHandle h fun x hx => (nomatch hx))
    · exact Or.inl h

/-- Connections are counted, and never forgotten. -/
theorem made_next (e : PoolEvent) : s.made ≤ (s.next maxIdle e).made := by
  cases e with
  | connected i ok =>
    cases ok with
    | true => exact Nat.le_succ _
    | false => exact Nat.le_refl s.made
  | checkout i | run i | close i | finish i ok | drop i =>
    unfold next
    dsimp only
    split <;> exact Nat.le_refl s.made
  | push i =>
    unfold next
    dsimp only
    repeat' split
    all_goals exact Nat.le_refl s.made

/-- A connection that was made and is in no place any more. -/
def Gone (c : Conn) (s : Pool) : Prop := c < s.made ∧ ¬ Placed c s

/-- **What is gone stays gone.** -/
theorem Gone.step (e : PoolEvent) (h : Gone c s) : Gone c (s.next maxIdle e) := by
  refine ⟨Nat.lt_of_lt_of_le h.1 (made_next e), fun hPlaced => ?_⟩
  rcases placed_next hPlaced with hOld | hNew
  · exact h.2 hOld
  · exact absurd h.1 (by rw [hNew]; exact Nat.lt_irrefl _)

theorem Gone.steps (h : Gone c s) (hRun : (pool maxIdle).Steps s t) : Gone c t :=
  hRun.invariant h fun _ e hGone _ => hGone.step e

/-- A connection whose handle lets go of it is gone. -/
theorem Inv.gone {h : Handle} (hInv : Inv maxIdle s) (hConn : (s.handles i).conn = some c)
    (hNone : h.conn = none) : Gone c (s.setHandle i h) := by
  refine ⟨hInv.heldMade i c hConn, ?_⟩
  rintro (hMem | ⟨j, hj⟩)
  · exact hInv.away i c hConn hMem
  · rw [setHandle_handles] at hj
    split at hj
    · rw [hNone] at hj
      cases hj
    · rename_i hOther
      exact hOther (hInv.once j i c hj hConn)

-- ---------------------------------------------------------------------------
-- The laws of the pool
-- ---------------------------------------------------------------------------

/-- A failure leaves the idle connections as they were. -/
theorem next_of_fails {e : PoolEvent} (h : e.fails s = true) (hEn : s.enabled e = true) :
    (s.next maxIdle e).idle = s.idle ∧ (s.next maxIdle e).isOpen = s.isOpen := by
  cases e with
  | connected i ok =>
    cases ok with
    | true => cases h
    | false => exact ⟨rfl, rfl⟩
  | finish i ok =>
    unfold next
    dsimp only
    split <;> exact ⟨rfl, rfl⟩
  | drop i =>
    have hHandle : s.handles i = .ran none := by simpa [PoolEvent.fails] using h
    unfold next
    dsimp only
    rw [hHandle]
    exact ⟨rfl, rfl⟩
  | checkout i | run i | close i | push i => cases h

/-- **Connection pool hygiene**, in every state any number of threads can
reach. -/
theorem pool_hygiene (maxIdle : Nat) (s : Pool) (hs : (pool maxIdle).Reachable s) :
    s.idle.length ≤ maxIdle ∧
    -- each connection is idle once, or owned by one `PooledConnection`
    s.idle.Nodup ∧
    (∀ i c, (s.handles i).conn = some c → c ∉ s.idle) ∧
    (∀ i j c, (s.handles i).conn = some c → (s.handles j).conn = some c → i = j) ∧
    -- a connection on which a run failed is never owned or idle again
    (∀ i c t, s.handles i = .running c →
      (pool maxIdle).Steps (s.next maxIdle (.finish i false)) t → ¬ Placed c t) ∧
    -- nor is one that was closed when it was returned
    (∀ i c t, s.enabled (.drop i) = true → (s.handles i).conn = some c → s.isOpen c = false →
      (pool maxIdle).Steps (s.next maxIdle (.drop i)) t → ¬ Placed c t) ∧
    -- a failed connect or run leaves the idle connections as they were
    (∀ e : PoolEvent, e.fails s = true → s.enabled e = true →
      (s.next maxIdle e).idle = s.idle ∧ (s.next maxIdle e).isOpen = s.isOpen) := by
  have hInv := inv_of_reachable hs
  refine ⟨hInv.capacity, hInv.nodup, hInv.away, hInv.once, fun i c t hHandle hRun => ?_,
    fun i c t _ hConn hClosed hRun => ?_, fun e hFails hEn => next_of_fails hFails hEn⟩
  -- the handle lets go of it, and it has no other place
  · have hGone : Gone c (s.next maxIdle (.finish i false)) := by
      have hConn : (s.handles i).conn = some c := by
        rw [hHandle]
        rfl
      unfold next
      dsimp only
      rw [hHandle]
      exact hInv.gone hConn rfl
    exact (hGone.steps hRun).2
  · have hGone : Gone c (s.next maxIdle (.drop i)) := by
      unfold next
      dsimp only
      rw [hConn]
      dsimp only
      rw [hClosed]
      exact hInv.gone hConn rfl
    exact (hGone.steps hRun).2

/-- A command is running on the first connection. -/
def firstRun : List PoolEvent := [.checkout 0, .connected 0 true, .run 0]

/-- The command fails, and the connection is gone. -/
theorem pool_hygiene_firstRun :
    ¬ Placed 0 ((((pool 2).exec new firstRun).getD new).next 2 (.finish 0 false)) := by
  have hReach : (pool 2).Reachable (((pool 2).exec new firstRun).getD new) :=
    Machine.reachable_getD rfl (by decide +kernel)
  have hLaws := pool_hygiene 2 _ hReach
  exact hLaws.2.2.2.2.1 0 0 _ (by decide +kernel) .refl

end Pool

end RLock.Sync
