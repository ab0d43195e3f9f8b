/-
  MixTor.Lib.Channel

  A bounded multi-producer single-consumer FIFO channel, kept with its history.

  `queue` is what waits in the channel, `received` everything the consumer has
  taken out so far, so `sent = received ++ queue` is the list of all values the
  channel ever accepted, in order.  The bound is a field: a channel over its
  capacity cannot be built.
-/

import Mathlib.Data.List.Basic

namespace Channel

variable {α : Type*} {cap : Nat}

/-- Why a non-blocking send failed. -/
inductive TrySendError where
  | full
  | closed
  deriving DecidableEq, Repr

/-- What a non-blocking receive found. -/
inductive TryRecv (α : Type*) where
  | ok (a : α)
  | empty
  | disconnected
  deriving DecidableEq, Repr

/-- A channel of capacity `cap`. -/
structure Chan (α : Type*) (cap : Nat) where
  queue : List α
  received : List α
  /-- Some sender handle is still alive. -/
  senders : Bool
  /-- The receiver handle is still alive. -/
  receiver : Bool
  queue_le : queue.length ≤ cap
  deriving DecidableEq, Repr

namespace Chan

/-- A fresh channel: nothing sent, both ends alive. -/
def new : Chan α cap := ⟨[], [], true, true, Nat.zero_le _⟩

/-- Every value the channel ever accepted, in order. -/
def sent (c : Chan α cap) : List α := c.received ++ c.queue

/-- Non-blocking send: refused when the receiver is gone or the queue is full. -/
def trySend (c : Chan α cap) (a : α) : Except TrySendError (Chan α cap) :=
  if c.receiver = false then .error .closed
  else if h : c.queue.length < cap then
    .ok { c with
      queue := c.queue ++ [a]
      queue_le := by
        rw [List.length_append, List.length_singleton]
        omega }
  else .error .full

/-- The blocking sends of one interval, in order: those that find room complete,
    the rest stay with their senders. -/
def offer (c : Chan α cap) (as : List α) : Chan α cap :=
  { c with
    queue := c.queue ++ as.take (cap - c.queue.length)
    queue_le := by
      have := c.queue_le
      rw [List.length_append, List.length_take]
      omega }

/-- Non-blocking receive: a value if one waits, else whether senders are left. -/
def tryRecv (c : Chan α cap) : TryRecv α × Chan α cap :=
  match h : c.queue with
  | a :: rest =>
      (.ok a, { c with
        queue := rest
        received := c.received ++ [a]
        queue_le := by
          have := c.queue_le
          rw [h, List.length_cons] at this
          omega })
  | [] => if c.senders then (.empty, c) else (.disconnected, c)

/-- The last sender handle is dropped. -/
def dropSenders (c : Chan α cap) : Chan α cap := { c with senders := false }

/-- The receiver handle is dropped. -/
def dropReceiver (c : Chan α cap) : Chan α cap := { c with receiver := false }

@[simp] theorem dropSenders_queue (c : Chan α cap) : c.dropSenders.queue = c.queue := rfl

@[simp] theorem dropReceiver_queue (c : Chan α cap) : c.dropReceiver.queue = c.queue := rfl
@[simp] theorem dropReceiver_sent (c : Chan α cap) : c.dropReceiver.sent = c.sent := rfl
@[simp] theorem dropReceiver_senders (c : Chan α cap) :
    c.dropReceiver.senders = c.senders := rfl

@[simp] theorem offer_senders (c : Chan α cap) (as : List α) :
    (c.offer as).senders = c.senders := rfl

@[simp] theorem offer_nil (c : Chan α cap) : c.offer [] = c := by
  simp [offer]

/-- What a successful non-blocking send does. -/
theorem trySend_eq_ok {c c' : Chan α cap} {a : α} (h : c.trySend a = .ok c') :
    c.receiver = true ∧ c.queue.length < cap ∧ c'.queue = c.queue ++ [a] ∧
      c'.received = c.received ∧ c'.senders = c.senders ∧ c'.receiver = true := by
  unfold trySend at h
  split at h
  · cases h
  · next hr =>
    split at h
    · next hlt =>
      obtain rfl := Except.ok.inj h
      simp only [Bool.not_eq_false] at hr
      exact ⟨hr, hlt, rfl, rfl, rfl, hr⟩
    · cases h

theorem receiver_of_closed {c : Chan α cap} {a : α} (h : c.trySend a = .error .closed) :
    c.receiver = false := by
  unfold trySend at h
  split at h
  · next hr => simpa using hr
  · split at h <;> cases h

/-- With the receiver alive and room left, a non-blocking send succeeds. -/
theorem trySend_of_room {c : Chan α cap} (a : α) (hr : c.receiver = true)
    (hlt : c.queue.length < cap) : ∃ c', c.trySend a = .ok c' := by
  unfold trySend
  rw [if_neg (by simp [hr]), dif_pos hlt]
  exact ⟨_, rfl⟩

theorem trySend_sent {c c' : Chan α cap} {a : α} (h : c.trySend a = .ok c') :
    c'.sent = c.sent ++ [a] := by
  obtain ⟨-, -, hq, hrec, -, -⟩ := trySend_eq_ok h
  rw [sent, sent, hq, hrec, List.append_assoc]

/-- The three outcomes of a non-blocking receive. -/
theorem tryRecv_cases (c : Chan α cap) :
    (∃ a rest, c.queue = a :: rest ∧ c.tryRecv.1 = .ok a ∧ c.tryRecv.2.queue = rest ∧
        c.tryRecv.2.received = c.received ++ [a] ∧ c.tryRecv.2.senders = c.senders ∧
        c.tryRecv.2.receiver = c.receiver) ∨
      (c.queue = [] ∧ c.senders = true ∧ c.tryRecv = (.empty, c)) ∨
      (c.queue = [] ∧ c.senders = false ∧ c.tryRecv = (.disconnected, c)) := by
  unfold tryRecv
  split
  · next a rest h => exact .inl ⟨a, rest, h, rfl, rfl, rfl, rfl, rfl⟩
  · next h =>
    cases hs : c.senders with
    | true => exact .inr (.inl ⟨h, rfl, by simp⟩)
    | false => exact .inr (.inr ⟨h, rfl, by simp⟩)

/-- Receiving moves a value from the queue to the consumer and loses nothing. -/
@[simp] theorem tryRecv_sent (c : Chan α cap) : c.tryRecv.2.sent = c.sent := by
  rcases tryRecv_cases c with ⟨a, rest, hq, -, hq', hr', -, -⟩ | ⟨-, -, h⟩ | ⟨-, -, h⟩
  · simp [sent, hq, hq', hr']
  · rw [h]
  · rw [h]

@[simp] theorem tryRecv_senders (c : Chan α cap) : c.tryRecv.2.senders = c.senders := by
  rcases tryRecv_cases c with ⟨a, rest, -, -, -, -, hs, -⟩ | ⟨-, -, h⟩ | ⟨-, -, h⟩
  · exact hs
  · rw [h]
  · rw [h]

@[simp] theorem tryRecv_receiver (c : Chan α cap) : c.tryRecv.2.receiver = c.receiver := by
  rcases tryRecv_cases c with ⟨a, rest, -, -, -, -, -, hr⟩ | ⟨-, -, h⟩ | ⟨-, -, h⟩
  · exact hr
  · rw [h]
  · rw [h]

/-- What a receive that finds a value does. -/
theorem tryRecv_of_cons {c : Chan α cap} {a : α} {rest : List α} (h : c.queue = a :: rest) :
    c.tryRecv.2.queue = rest ∧ c.tryRecv.2.received = c.received ++ [a] := by
  rcases tryRecv_cases c with ⟨a', rest', hq, -, hq', hr', -, -⟩ | ⟨hq, -, -⟩ | ⟨hq, -, -⟩
  · obtain ⟨rfl, rfl⟩ := List.cons.inj (h.symm.trans hq)
    exact ⟨hq', hr'⟩
  · rw [h] at hq
    cases hq
  · rw [h] at hq
    cases hq

theorem tryRecv_eq_ok {c rx : Chan α cap} {a : α} (h : c.tryRecv = (.ok a, rx)) :
    c.queue = a :: rx.queue ∧ rx.received = c.received ++ [a] := by
  rcases tryRecv_cases c with ⟨b, rest, hq, hok, hq', hrec, -, -⟩ | ⟨-, -, hnone⟩ | ⟨-, -, hnone⟩
  · rw [h] at hok hq' hrec
    obtain rfl := TryRecv.ok.inj hok
    exact ⟨by rw [hq, ← hq'], hrec⟩
  · rw [hnone] at h
    cases (Prod.mk.inj h).1
  · rw [hnone] at h
    cases (Prod.mk.inj h).1

theorem tryRecv_eq_disconnected {c rx : Chan α cap} (h : c.tryRecv = (.disconnected, rx)) :
    rx = c ∧ c.queue = [] ∧ c.senders = false := by
  rcases tryRecv_cases c with ⟨b, rest, -, hok, -⟩ | ⟨-, -, hnone⟩ | ⟨hq, hs, hnone⟩
  · rw [h] at hok
    cases hok
  · rw [hnone] at h
    cases (Prod.mk.inj h).1
  · rw [hnone] at h
    exact ⟨(Prod.mk.inj h).2.symm, hq, hs⟩

end Chan

end Channel
