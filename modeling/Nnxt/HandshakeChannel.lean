import Nnxt.TradeHandshake
import Nnxt.RingLog

/-!
# The action queue of the handshake

What writing, connecting and polling do to the queue between the two: the
gateway has executed what was written from its starting point up to its cursor.
-/

namespace Nnxt.TradeHandshake

set_option autoImplicit false

open RingSystem

section ChannelSteps
variable {c : Channel}

theorem connect_of_some {slot : Nat} (hr : c.queue.readers gatewayReader = some slot) :
    c.connect = c := by
  simp only [Channel.connect, hr]

theorem connect_of_none (hr : c.queue.readers gatewayReader = none) :
    c.connect = { c with
      queue := c.queue.connect gatewayReader
      connectedAt := ((c.queue.connect gatewayReader).readers gatewayReader).map
        fun _ => c.queue.log.length } := by
  simp only [Channel.connect, hr]
  rfl

theorem Linked.write (h : Linked c) (action : Action) : Linked (c.write action) := by
  refine ⟨?_, h.reader⟩
  rw [Channel.write, ← h.log]
  rfl

theorem Linked.connect (h : Linked c) : Linked c.connect := by
  cases hr : c.queue.readers gatewayReader with
  | some slot => rwa [connect_of_some hr]
  | none =>
    rw [connect_of_none hr]
    refine ⟨?_, Option.map_eq_none_iff⟩
    exact (c.queue.connect_log gatewayReader).trans h.log

theorem Linked.poll (h : Linked c) : Linked c.poll := by
  refine ⟨(c.queue.tryRead_log gatewayReader).trans h.log, ?_⟩
  have hreaders : c.poll.queue.readers = c.queue.readers := c.queue.tryRead_readers gatewayReader
  rw [hreaders]
  exact h.reader

theorem Delivers.write (h : Delivers c) (action : Action)
    (hfew : (c.write action).written.length < 2 ^ 64) : Delivers (c.write action) := by
  have hlinked := h.linked.write action
  refine ⟨h.inv.write action (hlinked.log ▸ hfew), rfl, hlinked, h.unread, ?_⟩
  intro k hk
  obtain ⟨n, hn, hkn, hexec⟩ := h.read k hk
  refine ⟨n, hn, hkn, ?_⟩
  obtain ⟨slot, hslot, rfl⟩ := Option.map_eq_some_iff.mp hn
  have hle := h.inv.cursors.cursor_le gatewayReader slot hslot
  rw [h.linked.log] at hle
  have hwritten : (c.write action).written = c.written ++ [action] := rfl
  rw [hwritten, List.take_append_of_le_length hle]
  exact hexec

theorem Delivers.connect (h : Delivers c) : Delivers c.connect := by
  have hlinked := h.linked.connect
  cases hr : c.queue.readers gatewayReader with
  | some slot => rwa [connect_of_some hr]
  | none =>
    have hexec := h.unread (h.linked.reader.mpr hr)
    rw [connect_of_none hr] at hlinked ⊢
    refine ⟨h.inv.connect gatewayReader, ?_, hlinked, fun _ => hexec, ?_⟩
    · have hwriter : (c.queue.connect gatewayReader).writer = c.queue.writer := by
        unfold RingSystem.connect
        split <;> rfl
      rw [hwriter]
      exact h.settled
    · intro k hk
      obtain ⟨slot, hslot, rfl⟩ := Option.map_eq_some_iff.mp hk
      refine ⟨c.queue.log.length, ?_, Nat.le_refl _, ?_⟩
      · simp only [RingSystem.connect, hr] at hslot ⊢
        cases hc : c.queue.ring.connect with
        | error e =>
          rw [hc] at hslot
          rw [hr] at hslot
          cases hslot
        | ok taken =>
          obtain ⟨ring, slot'⟩ := taken
          obtain ⟨hlt, hfree, rfl⟩ := c.queue.ring.connect_ok hc
          simp only [h.inv.cursor_attach gatewayReader hlt hfree, Function.update_self]
      · rw [hexec, h.linked.log, List.take_length, List.drop_length]

theorem Delivers.poll (h : Delivers c)
    (hunlapped : ∀ k ∈ c.queue.cursor gatewayReader,
      c.queue.log.length - k < c.queue.ring.capacity.toNat) : Delivers c.poll := by
  have hlinked := h.linked.poll
  rcases h.inv.tryRead_outcome gatewayReader with ⟨hs, _⟩ | ⟨slot, hr, hb, hs⟩
  · have hpoll : c.poll = c := by
      simp only [Channel.poll, hs, List.drop_length, List.map_nil, List.append_nil]
    rwa [hpoll]
  · have hpoll : c.poll = { c with
        queue := c.queue.advance gatewayReader slot
        executed := c.executed ++ [c.queue.ring.load (c.queue.ring.served slot)] } := by
      have hhanded : (c.queue.advance gatewayReader slot).handed = c.queue.handed ++
          [⟨gatewayReader, c.queue.ring.served slot, c.queue.ring.load (c.queue.ring.served slot)⟩] :=
        rfl
      simp only [Channel.poll, hs, hhanded, List.drop_left, List.map_singleton]
    have hlag := hunlapped _ (cursor_of_some hr)
    have hlt := UInt64.lt_iff_toNat_lt.mp hb
    rw [h.inv.stored.writeSeq] at hlt
    -- within the capacity, the entry served is the one at the cursor
    have hserved : (c.queue.ring.served slot).toNat = (c.queue.ring.readSeq slot).toNat := by
      rw [RingLog.nextPosition_served h.inv hr, CursorLog.nextPosition]
      omega
    have hvalue := RingLog.load_served h.inv h.settled hr hb
    rw [hserved, h.linked.log] at hvalue
    rw [hpoll] at hlinked ⊢
    refine ⟨h.inv.advance hr hb, h.settled, hlinked, ?_, ?_⟩
    · intro hnone
      have hreader := h.linked.reader.mp hnone
      rw [hr] at hreader
      cases hreader
    · intro k hk
      obtain ⟨n, hn, hkn, hexec⟩ := h.read k hk
      rw [cursor_of_some hr, Option.some.injEq] at hn
      subst hn
      refine ⟨(c.queue.ring.readSeq slot).toNat + 1, ?_, Nat.le_succ_of_le hkn, ?_⟩
      · simp only [h.inv.cursor_advance hr hb, Function.update_self, hserved]
      · have hlen : k ≤ (c.written.take (c.queue.ring.readSeq slot).toNat).length := by
          rw [List.length_take, ← h.linked.log]
          omega
        simp only [List.take_add_one, hvalue, Option.toList_some,
          List.drop_append_of_le_length hlen, hexec]

theorem OnTime.write (h : OnTime c) (hconnected : c.connectedAt ≠ none) (action : Action) :
    OnTime (c.write action) :=
  ⟨fun hnone => absurd hnone hconnected, h.started⟩

theorem OnTime.connect (h : OnTime c) (hl : Linked c) : OnTime c.connect := by
  cases hr : c.queue.readers gatewayReader with
  | some slot => rwa [connect_of_some hr]
  | none =>
    have hwritten := h.waiting (hl.reader.mpr hr)
    rw [connect_of_none hr]
    refine ⟨fun _ => hwritten, ?_⟩
    intro k hk
    obtain ⟨_, _, rfl⟩ := Option.map_eq_some_iff.mp hk
    rw [hl.log, hwritten]
    rfl

theorem OnTime.of_write {action : Action} (h : OnTime (c.write action)) : OnTime c := by
  refine ⟨?_, h.started⟩
  intro hnone
  have hwritten := h.waiting hnone
  simp [Channel.write] at hwritten

theorem OnTime.of_connect (hl : Linked c) (h : OnTime c.connect) : OnTime c := by
  cases hr : c.queue.readers gatewayReader with
  | some slot => rwa [connect_of_some hr] at h
  | none =>
    rw [connect_of_none hr] at h
    have hnone := hl.reader.mpr hr
    refine ⟨fun _ => ?_, ?_⟩
    · cases hslot : (c.queue.connect gatewayReader).readers gatewayReader with
      | none =>
        apply h.waiting
        rw [hslot, Option.map_none]
      | some slot =>
        -- a reader that started at the first action found an empty queue
        have hzero := h.started c.queue.log.length (by rw [hslot, Option.map_some])
        rw [hl.log] at hzero
        exact List.length_eq_zero_iff.mp hzero
    · intro k hk
      rw [hnone] at hk
      cases hk

theorem onTime_poll_iff : OnTime c.poll ↔ OnTime c :=
  ⟨fun h => ⟨h.waiting, h.started⟩, fun h => ⟨h.waiting, h.started⟩⟩

/-- Drained, the gateway has executed everything exactly when its reader started in time. -/
theorem Delivers.executed_iff (h : Delivers c) (hd : Drained c) :
    c.executed = c.written ↔ OnTime c := by
  have hreader : c.connectedAt ≠ none := by
    intro hnone
    rw [Drained, cursor_of_none (h.linked.reader.mp hnone)] at hd
    cases hd
  obtain ⟨k, hk⟩ := Option.ne_none_iff_exists'.mp hreader
  obtain ⟨n, hn, hkn, hexec⟩ := h.read k hk
  rw [hd, Option.some.injEq, h.linked.log] at hn
  rw [← hn, List.take_length] at hexec
  constructor
  · intro heq
    refine ⟨fun hnone => absurd hnone hreader, ?_⟩
    intro k' hk'
    rw [hk, Option.some.injEq] at hk'
    subst hk'
    have hlen := congrArg List.length (hexec.symm.trans heq)
    rw [List.length_drop] at hlen
    omega
  · intro hon
    rw [hexec, hon.started k hk, List.drop_zero]

end ChannelSteps

end Nnxt.TradeHandshake
