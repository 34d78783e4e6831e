import Mathlib
import WebSocketCore.Proofs.Session.PeerSteps
import WebSocketCore.Proofs.Task.Guards

/-! # Reading while the peer acts

`Routine.Reads` describes a reading task played against bytes that only arrive: at each wait the
next chunk is queued. Served by the peer instead, the task is resumed in a world its link drifted
to, whose queue holds some next bytes of the stream. A reading task sees only the queue and the
error, so its run there mirrors the played run with those bytes as the next chunk, and every wait
or end of the served run is one of the played run (`Progress.Mirrors.guards_of_feeds`). A read
that `Reads` its answer off the stream therefore answers it when served, having consumed what it
says (`Io.guards_of_reads`), and one that consumes the whole stream and then waits only
ever waits (`Io.guards_of_waits`).
-/

namespace WebSocketCore

variable {σ α : Type}

/-- Any bytes arrive as a list of nonempty chunks. -/
theorem exists_chunking (t : List UInt8) : ∃ cs : List (List UInt8), (∀ c ∈ cs, c ≠ []) ∧ cs.flatten = t := by
  by_cases none : t = []
  · exact ⟨[], by simp, by simp [none]⟩
  · exact ⟨[t], by simpa using none, by simp⟩

namespace Conn

theorem consumed_eat (w : Conn Loopback σ) (q : List UInt8) (n j : Nat) :
    (w.consumed q n).eat j = w.consumed (q.drop j) (n + (q.take j).length) := by
  simp only [eat, consumed, Link.consume, Nat.add_assoc]

theorem deliver_consumed (w : Conn Loopback σ) (q c : List UInt8) (n : Nat) :
    (w.consumed q n).deliver c = w.consumed (q ++ c) n := rfl

end Conn

/-- Consuming `j` bytes of a queue that begins a stream leaves a queue that begins the rest. -/
theorem drop_queue {q rest t : List UInt8} (split : q ++ rest = t) (j : Nat) :
    q.drop j ++ rest = t.drop (q.take j).length := by
  rw [← split, List.drop_append_of_le_length (by rw [List.length_take]; exact Nat.min_le_right _ _)]
  congr 1
  rcases le_total j q.length with short | long
  · rw [List.length_take, Nat.min_eq_left short]
  · rw [List.drop_of_length_le long, List.length_take, Nat.min_eq_right long, List.drop_length]

theorem Link.isReady_recv_of_clean {l : Link Loopback} (clean : l.error = none) :
    l.isReady .recv = !l.inbound.isEmpty := by
  simp [Link.isReady, clean]

namespace Progress

variable {input s : List UInt8} {w₀ : Conn Loopback σ}
  {Out : Progress (Conn Loopback σ) WaitReason Wake α → List (List UInt8) → Prop}

/-- A wait of a reading task served from `w₀` over the stream `s`: for bytes, with the queue
empty, after the task and the peer moved the link, having consumed `k` bytes of the stream; a wait
with the stream all consumed is one the played run ends on. -/
def FeedWait (w₀ : Conn Loopback σ) (s : List UInt8)
    (Out : Progress (Conn Loopback σ) WaitReason Wake α → List (List UInt8) → Prop)
    (y : WaitReason) (u : Conn Loopback σ) : Prop :=
  y = .recv ∧ u.link.inbound = [] ∧ Link.Listens w₀.link u.link ∧
    ∃ k, u.consumedCount = w₀.consumedCount + k ∧ k ≤ s.length ∧
      (k = s.length → ∃ K, Out (.suspend .recv (w₀.consumed [] k) K) [])

/-- An end of a reading task served from `w₀`, after the task and the peer moved the link, having
consumed `k` bytes of the stream `s`, the rest of it queued or yet to arrive, where a played run
ends too. -/
def FeedDone (w₀ : Conn Loopback σ) (s : List UInt8)
    (Out : Progress (Conn Loopback σ) WaitReason Wake α → List (List UInt8) → Prop)
    (a : α) (_ : Nat) (u : Conn Loopback σ) : Prop :=
  Link.Listens w₀.link u.link ∧ ∃ k cs, Out (.done a (w₀.consumed u.link.inbound k)) cs ∧
    u.link.inbound ++ cs.flatten = s.drop k ∧ u.consumedCount = w₀.consumedCount + k ∧ k ≤ s.length

/-- The bridge from played runs to served ones: a reading task served by the peer waits and ends
only where the run it mirrors, fed the rest of the stream, does. -/
theorem Mirrors.guards_of_feeds (stream : input.drop w₀.consumedCount = s)
    (noStall : ∀ u cs, ¬ Out (.stall u) cs) :
    ∀ {w v : Conn Loopback σ} {p q : Progress (Conn Loopback σ) WaitReason Wake α},
      Mirrors w v p q → ∀ (n N : Nat), w.Alike v → w.link.error = none →
      w.link.attached = true → Link.Listens w₀.link w.link →
      w.consumedCount = w₀.consumedCount + N → v = w₀.consumed v.link.inbound N → N ≤ s.length →
      w.link.inbound <+: s.drop N →
      (∀ cs, (∀ c ∈ cs, c ≠ []) → v.link.inbound ++ cs.flatten = s.drop N →
        Out (q.feed cs).1 (q.feed cs).2) →
      p.Guards (.ok ()) (Conn.Serves input) (FeedWait w₀ s Out) (FeedDone w₀ s Out) n := by
  intro w v p q mirrors
  induction mirrors with
  | @done w v a j =>
    intro n N alike _ _ listens count origin few within feeds
    obtain ⟨rest, split⟩ := within
    obtain ⟨cs, chunks, flat⟩ := exists_chunking rest
    have ends := feeds cs chunks (by rw [flat, ← alike.1]; exact split)
    rw [feed_done, origin, Conn.consumed_eat, ← alike.1] at ends
    refine .done ⟨listens.tail (.consume _ j), N + (w.link.inbound.take j).length, cs, ends, ?_,
      by simp [count, Nat.add_assoc], ?_⟩
    · rw [Conn.inbound_eat, flat, drop_queue split, List.drop_drop]
    · -- what was consumed was queued, and the queue holds bytes of the stream
      have lengths := congrArg List.length split
      simp only [List.length_append, List.length_drop] at lengths
      simp only [List.length_take]
      omega
  | @stall w v j =>
    intro n N alike _ _ _ _ _ _ within feeds
    obtain ⟨rest, split⟩ := within
    obtain ⟨cs, chunks, flat⟩ := exists_chunking rest
    have stalls := feeds cs chunks (by rw [flat, ← alike.1]; exact split)
    have fed : (Progress.stall (v.eat j) : Progress (Conn Loopback σ) WaitReason Wake α).feed cs =
        (.stall (v.eat j), cs) := by
      cases cs <;> rfl
    rw [fed] at stalls
    exact (noStall _ _ stalls).elim
  | @wait w v j k k' emptied _ ih =>
    intro n N alike clean held listens count origin few within feeds
    obtain ⟨rest, split⟩ := within
    -- the queue was consumed whole: the played run stands after `N + queued` bytes
    have took : (w.link.inbound.take j).length = w.link.inbound.length := by
      rw [List.length_take, Nat.min_eq_right (List.drop_eq_nil_iff.mp emptied)]
    have restEq : rest = s.drop (N + w.link.inbound.length) := by
      have := drop_queue split j
      rwa [emptied, List.nil_append, took, List.drop_drop] at this
    have lengths : N + w.link.inbound.length ≤ s.length := by
      have := congrArg List.length split
      simp only [List.length_append, List.length_drop] at this
      omega
    have atWait : v.eat j = w₀.consumed [] (N + w.link.inbound.length) := by
      rw [origin, Conn.consumed_eat, ← alike.1, emptied, took]
    have waits : FeedWait w₀ s Out .recv (w.eat j) := by
      refine ⟨rfl, by simpa using emptied, listens.tail (.consume _ j), N + w.link.inbound.length,
        by simp [count, took, Nat.add_assoc], lengths, fun all => ?_⟩
      -- with the stream all consumed, the played run waits with nothing left to feed
      have none : rest = [] := by
        rw [restEq, all]
        exact List.drop_length
      have stops := feeds [] (by simp) (by rw [← alike.1, List.flatten_nil, List.append_nil,
        ← split, none, List.append_nil])
      rw [feed_nil, atWait] at stops
      exact ⟨k', stops⟩
    cases n with
    | zero => exact .last waits
    | succ n =>
      refine .wait waits fun v' serves => ?_
      obtain ⟨drifts, ready, within'⟩ := serves
      obtain ⟨clean', held', count', -⟩ := drifts.frame held
      rw [Conn.error_eat] at clean'
      -- the peer queued the stream's next bytes: the played run's next chunk
      have arrived : v'.link.inbound ≠ [] := by
        rw [Link.isReady_recv_of_clean (clean'.trans clean)] at ready
        simpa using ready
      have alike' : v'.Alike ((v.eat j).deliver v'.link.inbound) := by
        refine ⟨?_, by rw [clean'.trans clean, Conn.error_deliver, Conn.error_eat, ← alike.2, clean]⟩
        rw [Conn.inbound_deliver, Conn.inbound_eat, ← alike.1, emptied, List.nil_append]
      have counted : v'.consumedCount = w₀.consumedCount + (N + w.link.inbound.length) := by
        have drifted : v'.consumedCount = (w.eat j).consumedCount := count'
        rw [drifted, Conn.consumedCount_eat, count, took, Nat.add_assoc]
      refine ih v' _ alike' n (N + w.link.inbound.length) alike' (clean'.trans clean) held'
        ((listens.tail (.consume _ j)).trans drifts.listens) counted ?_ lengths ?_ fun cs chunks arrives => ?_
      · rw [atWait, Conn.deliver_consumed, Conn.inbound_consumed]
      · have rest : input.drop v'.consumedCount = s.drop (N + w.link.inbound.length) := by
          rw [counted, ← stream, List.drop_drop]
        rw [← rest]
        exact within'
      · -- the played run, fed this chunk first, goes on as the served run does
        have chunks' : ∀ c ∈ v'.link.inbound :: cs, c ≠ [] := by
          intro c mem
          rcases List.mem_cons.mp mem with rfl | later
          · exact arrived
          · exact chunks c later
        have queued : v.link.inbound ++ (v'.link.inbound :: cs).flatten = s.drop N := by
          rw [← alike'.1, ← restEq] at arrives
          rw [List.flatten_cons, ← alike.1, arrives, split]
        have fed := feeds _ chunks' queued
        rwa [feed_recv] at fed

end Progress

namespace Io

open Progress

variable {input s : List UInt8} {w : Conn Loopback σ} {m : Io Loopback σ α}

/-- A wait of a reading task served from `w₀`: for bytes, with the queue empty, after the task
and the peer moved the link, with a count of consumed bytes that `R` admits. -/
def Listening (w₀ : Conn Loopback σ) (R : Nat → Prop) (y : WaitReason) (u : Conn Loopback σ) : Prop :=
  y = .recv ∧ u.link.inbound = [] ∧ Link.Listens w₀.link u.link ∧ R u.consumedCount

/-- An end of a reading task served from `w₀` over the stream `s`: after the task and the peer
moved the link, with an answer that `P` admits of the `k` bytes consumed, no more than the stream
holds, and the rest of the stream queued or yet to arrive. -/
def Heard (w₀ : Conn Loopback σ) (s : List UInt8) (P : Except NetError α → Nat → Prop)
    (r : Except NetError α) (_ : Nat) (u : Conn Loopback σ) : Prop :=
  Link.Listens w₀.link u.link ∧
    ∃ k, P r k ∧ k ≤ s.length ∧ u.consumedCount = w₀.consumedCount + k ∧ u.link.inbound <+: s.drop k

/-- A reading program started where the queue begins the stream `s`, the rest of the input from
the consumed bytes on, keeps what every play of the stream from there ends with. -/
theorem guards_of_feeds (mirrors : Mirrors w w (m.run w) (m.run w))
    {Out : Progress (Conn Loopback σ) WaitReason Wake (Except NetError α) → List (List UInt8) → Prop}
    (noStall : ∀ u cs, ¬ Out (.stall u) cs) (stream : input.drop w.consumedCount = s)
    (clean : w.link.error = none) (held : w.link.attached = true) (within : w.link.inbound <+: s)
    (feeds : ∀ cs, (∀ c ∈ cs, c ≠ []) → w.link.inbound ++ cs.flatten = s →
      Out ((m.run w).feed cs).1 ((m.run w).feed cs).2) (n : Nat) :
    (m.run w).Guards (.ok ()) (Conn.Serves input) (FeedWait w s Out) (FeedDone w s Out) n :=
  mirrors.guards_of_feeds stream noStall n 0 (Conn.Alike.refl w) clean
    held .refl rfl (by simp) (Nat.zero_le _) (by simpa using within) (by simpa using feeds)

/-- A reading program that reads its answer off the stream `s`, served by the peer: it waits
for bytes only with the queue empty and before the stream's end, and finishes with an answer
that `P` admits of the bytes it consumed, the rest of the stream queued or yet to arrive. -/
theorem guards_of_reads (mirrors : Mirrors w w (m.run w) (m.run w)) {P : Except NetError α → Nat → Prop}
    (reads : Routine.Reads m.run s P) (stream : input.drop w.consumedCount = s)
    (clean : w.link.error = none) (held : w.link.attached = true) (within : w.link.inbound <+: s)
    (n : Nat) :
    (m.run w).Guards (.ok ()) (Conn.Serves input)
      (Listening w (· < w.consumedCount + s.length)) (Heard w s P) n := by
  -- the played runs all finish with an answer `P` admits
  let Out : Progress (Conn Loopback σ) WaitReason Wake (Except NetError α) → List (List UInt8) → Prop :=
    fun p cs => ∃ r k q, p = .done r (w.consumed q k) ∧ P r k ∧ q ++ cs.flatten = s.drop k
  have feeds : ∀ cs, (∀ c ∈ cs, c ≠ []) → w.link.inbound ++ cs.flatten = s →
      Out ((m.run w).feed cs).1 ((m.run w).feed cs).2 := by
    intro cs chunks arrives
    obtain ⟨r, k, q, cs', answers, fed, rest⟩ := reads w cs clean chunks arrives
    rw [fed]
    exact ⟨r, k, q, rfl, answers, rest⟩
  refine (guards_of_feeds mirrors (fun u cs stalls => ?_) stream clean held within feeds n).mono
    (fun y u waits => ?_) fun r k u ends => ?_
  · obtain ⟨r, k, q, stalled, -⟩ := stalls
    cases stalled
  · obtain ⟨recv, empty, listens, k, count, few, atEnd⟩ := waits
    refine ⟨recv, empty, listens, ?_⟩
    -- a wait at the stream's end would be an end of the played run, which only finishes
    rcases Nat.lt_or_ge k s.length with short | long
    · omega
    · obtain ⟨K, r, k', q, stops, -⟩ := atEnd (by omega)
      cases stops
  · obtain ⟨listens, k, cs, ⟨r', k', q, ends, answers, rest⟩, queued, count, few⟩ := ends
    obtain ⟨rfl, same⟩ := Progress.done.inj ends
    have eaten : k' = k ∧ q = u.link.inbound := by
      have credit := congrArg (fun x : Conn Loopback σ => x.link.credit) same
      have queue := congrArg (fun x : Conn Loopback σ => x.link.inbound) same
      simp only [Conn.consumed] at credit queue
      exact ⟨by omega, queue.symm⟩
    obtain ⟨rfl, rfl⟩ := eaten
    exact ⟨listens, k', answers, few, count, ⟨cs.flatten, queued⟩⟩

/-- A reading program that, however the stream `s` arrives, takes all of it and then waits for
bytes, served by the peer: it only ever waits for bytes, with the queue empty and at most the
stream consumed. -/
theorem guards_of_waits (mirrors : Mirrors w w (m.run w) (m.run w)) (stream : input.drop w.consumedCount = s)
    (clean : w.link.error = none) (held : w.link.attached = true) (within : w.link.inbound <+: s)
    (waits : ∀ cs, (∀ c ∈ cs, c ≠ []) → w.link.inbound ++ cs.flatten = s →
      ∃ K, (m.run w).feed cs = (.suspend .recv (w.consumed [] s.length) K, []))
    (n : Nat) :
    (m.run w).Guards (.ok ()) (Conn.Serves input)
      (Listening w (· ≤ w.consumedCount + s.length)) (fun _ _ _ => False) n := by
  let Out : Progress (Conn Loopback σ) WaitReason Wake (Except NetError α) → List (List UInt8) → Prop :=
    fun p cs => ∃ K, p = .suspend .recv (w.consumed [] s.length) K ∧ cs = []
  have feeds : ∀ cs, (∀ c ∈ cs, c ≠ []) → w.link.inbound ++ cs.flatten = s →
      Out ((m.run w).feed cs).1 ((m.run w).feed cs).2 := by
    intro cs chunks arrives
    obtain ⟨K, fed⟩ := waits cs chunks arrives
    rw [fed]
    exact ⟨K, rfl, rfl⟩
  refine (guards_of_feeds mirrors (fun u cs stalls => ?_) stream clean held within feeds n).mono
    (fun y u waiting => ?_) fun r k u ends => ?_
  · obtain ⟨K, stalled, -⟩ := stalls
    cases stalled
  · obtain ⟨recv, empty, listens, k, count, few, -⟩ := waiting
    exact ⟨recv, empty, listens, by omega⟩
  · obtain ⟨-, k, cs, ⟨K, stops, -⟩, -, -⟩ := ends
    cases stops

end Io

end WebSocketCore
