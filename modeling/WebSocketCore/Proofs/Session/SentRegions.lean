import Mathlib
import WebSocketCore.Proofs.Session.Flushing

/-! # A raw head, then frames

A link whose ring accepted raw bytes and then bytes of one framing has handed its loopback the
sealed regions that carry a first part of them, in order (`Carries.sent_regions`). Regions do not
mix framings, so the raw regions come first and carry a first part of the raw bytes, all of them
once a framed region follows (`Region.split_tagged`). Once the raw bytes are known to have gone out
whole, what the loopback received is those bytes and then complete frames, each of the framing,
with between one byte and the payload limit of payload, whose payloads are a first part of the
framed bytes, all of them once nothing is open or pending (`Writing.sent_after_head`).
-/

namespace WebSocketCore

namespace Region

@[simp] theorem map_snd_tagged (x : Region) : x.tagged.map Prod.snd = x.payload := by
  simp [tagged, Function.comp_def]

/-- The payloads of regions are their tagged bytes without the tags. -/
theorem snd_tagged (xs : List Region) : (xs.flatMap tagged).map Prod.snd = xs.flatMap payload := by
  simp [List.map_flatMap]

theorem framing_of_mem_tagged {x : Region} {t : Framing × UInt8} (mem : t ∈ x.tagged) :
    t.1 = x.framing := by
  obtain ⟨b, -, rfl⟩ := List.mem_map.mp mem
  rfl

/-- A raw region at the front of raw bytes followed by bytes of another framing lies among the raw
bytes. -/
theorem payload_prefix_of_raw {fr : Framing} (notRaw : fr ≠ .raw) {x : Region}
    (raw : x.framing = .raw) {A B : List UInt8}
    (pre : x.tagged <+: A.map (Framing.raw, ·) ++ B.map (fr, ·)) : x.payload <+: A := by
  have untag : (A.map (Framing.raw, ·)).map Prod.snd = A := by simp [Function.comp_def]
  rcases List.prefix_or_prefix_of_prefix pre (List.prefix_append _ _) with inA | beyond
  · simpa [snd_tagged, tagged, untag, Function.comp_def] using inA.map Prod.snd
  · obtain ⟨D, whole⟩ := beyond
    rcases D with _ | ⟨d, D⟩
    · rw [List.append_nil] at whole
      have same := congrArg (List.map Prod.snd) whole
      simp only [untag, tagged, List.map_map, Function.comp_def, List.map_id'] at same
      rw [same]
    · -- a byte of the region past the raw bytes would be tagged with the other framing
      have inRegion : d ∈ x.tagged := by
        rw [← whole]
        exact List.mem_append_right _ List.mem_cons_self
      rw [← whole] at pre
      have inB := ((List.prefix_append_right_inj _).mp pre).subset List.mem_cons_self
      obtain ⟨b, -, rfl⟩ := List.mem_map.mp inB
      exact absurd ((framing_of_mem_tagged inRegion).trans raw) notRaw

/-- Regions with payloads whose tagged bytes are a first part of raw bytes `A` followed by bytes
`B` of another framing are raw regions carrying a first part of `A`, all of it if any region
follows, then regions of that framing carrying a first part of `B`. The induction is on the
regions; a raw region takes its payload off the front of `A`. -/
theorem split_tagged {fr : Framing} (notRaw : fr ≠ .raw) :
    ∀ (xs : List Region) (A B : List UInt8), (∀ x ∈ xs, x.payload ≠ []) →
      xs.flatMap tagged <+: A.map (Framing.raw, ·) ++ B.map (fr, ·) →
      ∃ ys zs, xs = ys ++ zs ∧ (∀ y ∈ ys, y.framing = .raw) ∧ (∀ z ∈ zs, z.framing = fr) ∧
        ys.flatMap payload <+: A ∧ (zs ≠ [] → ys.flatMap payload = A) ∧ zs.flatMap payload <+: B := by
  intro xs
  induction xs with
  | nil =>
    intro A B _ _
    exact ⟨[], [], rfl, by simp, by simp, List.nil_prefix, by simp, List.nil_prefix⟩
  | cons x xs ih =>
    intro A B filled pre
    rcases A with _ | ⟨a, A⟩
    · -- no raw bytes: every region is of the other framing
      simp only [List.map_nil, List.nil_append] at pre
      refine ⟨[], x :: xs, rfl, by simp, fun z mem => ?_, List.nil_prefix, fun _ => rfl, ?_⟩
      · obtain ⟨b, bs, payload⟩ := List.exists_cons_of_ne_nil (filled z mem)
        have inTagged : (z.framing, b) ∈ (x :: xs).flatMap tagged :=
          List.mem_flatMap.mpr ⟨z, mem, by simp [tagged, payload]⟩
        obtain ⟨c, -, same⟩ := List.mem_map.mp (pre.subset inTagged)
        exact (Prod.mk.inj same).1.symm
      · simpa [snd_tagged, Function.comp_def] using pre.map Prod.snd
    · -- raw bytes first: the first region is raw and takes its payload off their front
      obtain ⟨p, ps, payload⟩ := List.exists_cons_of_ne_nil (filled x List.mem_cons_self)
      have raw : x.framing = .raw := by
        have front := pre
        rw [List.flatMap_cons, tagged, payload, List.map_cons, List.cons_append, List.map_cons,
          List.cons_append, List.cons_prefix_cons] at front
        exact (Prod.mk.inj front.1).1
      obtain ⟨A', split⟩ := payload_prefix_of_raw notRaw raw
        ((List.prefix_append _ _).trans (List.flatMap_cons ▸ pre))
      have tail : xs.flatMap tagged <+: A'.map (Framing.raw, ·) ++ B.map (fr, ·) := by
        have retagged : x.tagged = x.payload.map (Framing.raw, ·) := by simp [tagged, raw]
        rw [← split, List.map_append, List.append_assoc, List.flatMap_cons, retagged] at pre
        exact (List.prefix_append_right_inj _).mp pre
      obtain ⟨ys, zs, rfl, raws, framed, inA, whole, inB⟩ :=
        ih A' B (fun y mem => filled y (List.mem_cons_of_mem _ mem)) tail
      refine ⟨x :: ys, zs, rfl, fun y mem => ?_, framed, ?_, fun nonempty => ?_, inB⟩
      · rcases List.mem_cons.mp mem with rfl | mem
        · exact raw
        · exact raws y mem
      · rw [List.flatMap_cons, ← split]
        exact (List.prefix_append_right_inj _).mpr inA
      · rw [List.flatMap_cons, whole nonempty, split]

/-- Raw regions go out as their payloads. -/
theorem flatMap_wire_of_raw {ys : List Region} (raws : ∀ y ∈ ys, y.framing = .raw) :
    ys.flatMap wire = ys.flatMap payload := by
  simp only [List.flatMap_def]
  congr 1
  refine List.map_congr_left fun y mem => ?_
  unfold wire
  rw [raws y mem]

end Region

namespace Link

variable {l : Link Loopback} {limit : Nat}

/-- A carried link has handed its loopback the sealed regions it lent, whole, in order; with the
regions it holds pending and the open region they carry the bytes the run accepted. -/
theorem Carries.sent_regions {s : RingRun} (carries : l.Carries limit s) :
    ∃ sent held : List Region, l.transport.sentBytes = sent.flatMap Region.wire ∧
      (∀ x ∈ sent ++ held, 1 ≤ x.payload.length ∧ x.payload.length ≤ limit) ∧
      s.accepted = (sent ++ held).flatMap Region.tagged ++ l.ring.openTagged ∧
      (l.ring.pending = none → held = []) := by
  obtain ⟨sent, held, lentEq, pendEq, bounds, accepted⟩ := carries.delivering.delivered.framed
  refine ⟨sent, held, ?_, bounds, by rw [accepted, carries.ring_eq], fun idle => ?_⟩
  · have bytes := congrArg (List.map Prod.fst) carries.sends_eq
    rw [Loopback.sentBytes, List.flatMap_def, bytes, List.map_map]
    simp only [Function.comp_def]
    rw [lentEq, List.flatMap_def]
  · rw [carries.ring_eq, idle] at pendEq
    exact List.map_eq_nil_iff.mp pendEq.symm

/-- A link whose run accepted the raw bytes `head`, then the bytes `got` of a framing other than
`raw`, and whose loopback has received `head` whole, has handed it `head` and then complete
regions of that framing, each with between one byte and `limit` of payload, carrying a first part
of `got`, all of it once nothing is open or pending. -/
theorem Writing.sent_after_head {fr : Framing} (notRaw : fr ≠ .raw) {head got : List UInt8}
    (writing : l.Writing limit (head.map (Framing.raw, ·) ++ got.map (fr, ·)))
    (leads : head <+: l.transport.sentBytes) :
    ∃ regions : List Region, l.transport.sentBytes = head ++ regions.flatMap Region.wire ∧
      (∀ x ∈ regions, x.framing = fr ∧ 1 ≤ x.payload.length ∧ x.payload.length ≤ limit) ∧
      regions.flatMap Region.payload <+: got ∧
      (l.ring.openRegion = none → l.ring.pending = none → regions.flatMap Region.payload = got) := by
  obtain ⟨s, carries, accepted⟩ := writing.accepted
  obtain ⟨sent, held, sentEq, bounds, acceptedEq, settled⟩ := carries.sent_regions
  have within : sent.flatMap Region.tagged <+: head.map (Framing.raw, ·) ++ got.map (fr, ·) := by
    rw [← accepted, acceptedEq, List.flatMap_append, List.append_assoc]
    exact List.prefix_append _ _
  obtain ⟨ys, zs, rfl, raws, framed, inHead, whole, inGot⟩ := Region.split_tagged notRaw sent head got
    (fun x mem => List.ne_nil_of_length_pos (bounds x (List.mem_append_left _ mem)).1) within
  -- the raw regions carry the head whole: by `whole` if a frame follows, else since the loopback
  -- received no more than them
  have headEq : ys.flatMap Region.payload = head := by
    by_cases none : zs = []
    · subst none
      rw [sentEq, List.append_nil, Region.flatMap_wire_of_raw raws] at leads
      exact inHead.eq_of_length (le_antisymm inHead.length_le leads.length_le)
    · exact whole none
  refine ⟨zs, ?_, fun z mem => ⟨framed z mem, bounds z (by simp [mem])⟩, inGot, fun closed idle => ?_⟩
  · rw [sentEq, List.flatMap_append, Region.flatMap_wire_of_raw raws, headEq]
  · -- nothing is open or pending: the lent regions carry every accepted byte
    have none := settled idle
    subst none
    have all := congrArg (List.map Prod.snd) (accepted.symm.trans acceptedEq)
    rw [List.append_nil, FrameRing.openTagged_of_closed closed, List.append_nil,
      Region.snd_tagged, List.flatMap_append, headEq] at all
    simp only [List.map_append, List.map_map, Function.comp_def, List.map_id'] at all
    exact (List.append_cancel_left all).symm

end Link

end WebSocketCore
