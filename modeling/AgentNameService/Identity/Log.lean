/-
Purpose: The transparency log as the identity service sees it: an event is parsed and checked as the log's identity lane
  does, and an event whose canonical bytes are in the log already is acknowledged without a new leaf.
Source: internal/tl/service/{codec,ingest}.go, internal/tl/event/identity/event.go
Trusted boundary: human-reviewed model; the log has one producer, whose signature it accepts
-/
import AgentNameService.Identity.ControlProof

namespace AgentNameService.Identity

open Except Json TransparencyLog.Identity
open Registration (Error)
open TransparencyLog (EventType Schema parseEvent stampRaID)

variable (D : Deployment)

/-- `CanonicalizeEvent`. -/
def canonicalizeEvent (e : Event) : Except String Json := Schema.identity.canonicalizeEvent D.log e

/-- A leaf of the identity lane: an event and its canonical bytes. -/
structure Leaf where
  event : Event
  canonical : Json
  canonical_event : canonicalizeEvent D event = .ok canonical

/-- Make a leaf of an event. -/
def leafOf (e : Event) : Except Error (Leaf D) :=
  match h : canonicalizeEvent D e with
  | .error text => .error (.plain ("service: canonicalize identity inner: " ++ text))
  | .ok canonical => .ok ⟨e, canonical, h⟩

/-- The log after a request on the identity lane. -/
def appendEvent (log : List (Leaf D)) (body : Json) : Except Error (List (Leaf D)) := do
  let inner ← parseEvent D.log .identity (.document body) D.raID
  let leaf ← leafOf D inner
  return if log.any (·.canonical = leaf.canonical) then log else log ++ [leaf]

/-! ### What canonical bytes say of an event -/

/-- What an event states: which type, of which identity, with which identifier, and naming which agents. -/
structure Facts where
  eventType : EventType
  identityID : String
  kind : String
  value : String
  ansIDs : List String

def factsOf (e : Event) : Facts := ⟨e.eventType, e.identityID, e.kind, e.value, e.ansIDs⟩

variable {D} {leaf : Leaf D} {states : Facts → Bool} {log : List (Leaf D)} {e : Event} {canonical : Json}

abbrev eventCodec : Codec D.log.numbers Event := TransparencyLog.Identity.eventCodec

theorem factsOf_norm (e : Event) : factsOf ((eventCodec (D := D)).norm e) = factsOf e := by
  have hids : ((eventCodec (D := D)).norm e).ansIDs = e.ansIDs.map id := rfl
  have htype : ((eventCodec (D := D)).norm e).eventType = EventType.ofText e.eventType.text := rfl
  have hsame : EventType.ofText e.eventType.text = e.eventType := EventType.text_injective (EventType.text_ofText _)
  simp only [factsOf, hids, htype, hsame, List.map_id]
  rfl

theorem raID_norm (e : Event) : ((eventCodec (D := D)).norm e).raID = e.raID := rfl

theorem canonicalizeEvent_eq_ok_iff : canonicalizeEvent D e = .ok canonical ↔
    Json.defect D.log.numbers ((eventCodec (D := D)).encode e) = none ∧
      Json.canonical D.log.numbers ((eventCodec (D := D)).encode e) = canonical := by
  unfold canonicalizeEvent Schema.canonicalizeEvent
  simp only [Schema.canonicalize, withContext_eq_ok_iff]
  exact Json.canonicalize_object

/-- Events with the same canonical bytes have the same normal form. -/
theorem norm_eq_of_canonical {a b : Event} (ha : canonicalizeEvent D a = .ok canonical)
    (hb : canonicalizeEvent D b = .ok canonical) : (eventCodec (D := D)).norm a = (eventCodec (D := D)).norm b := by
  obtain ⟨hdefectA, rfl⟩ := canonicalizeEvent_eq_ok_iff.mp ha
  obtain ⟨hdefectB, hsame⟩ := canonicalizeEvent_eq_ok_iff.mp hb
  have hdecodeA := (eventCodec).decode_canonical a hdefectA
  have hdecodeB := (eventCodec).decode_canonical b hdefectB
  rw [hsame, hdecodeA] at hdecodeB
  exact ok.inj hdecodeB

/-- Events with the same canonical bytes state the same. -/
theorem facts_eq_of_canonical {a b : Event} (ha : canonicalizeEvent D a = .ok canonical)
    (hb : canonicalizeEvent D b = .ok canonical) : factsOf a = factsOf b := by
  rw [← factsOf_norm a, norm_eq_of_canonical ha hb, factsOf_norm]

theorem Leaf.facts_eq (h : canonicalizeEvent D e = .ok leaf.canonical) : factsOf leaf.event = factsOf e :=
  facts_eq_of_canonical leaf.canonical_event h

/-! ### The newest leaf of its kind -/

/-- The newest leaf that states something. -/
def newest (states : Facts → Bool) (log : List (Leaf D)) : Option (Leaf D) :=
  (log.filter fun leaf => states (factsOf leaf.event)).getLast?

theorem newest_append_of_true
    (h : states (factsOf leaf.event) = true) : newest states (log ++ [leaf]) = some leaf := by
  simp [newest, h]

theorem newest_append_of_false
    (h : states (factsOf leaf.event) = false) : newest states (log ++ [leaf]) = newest states log := by
  simp [newest, h]

theorem exists_newest (hleaf : leaf ∈ log)
    (h : states (factsOf leaf.event) = true) : ∃ found, newest states log = some found := by
  have hmem : leaf ∈ log.filter fun leaf => states (factsOf leaf.event) := List.mem_filter.mpr ⟨hleaf, h⟩
  exact ⟨_, List.getLast?_eq_some_getLast (List.ne_nil_of_mem hmem)⟩

/-! ### What an append does -/

theorem leafOf_eq_ok_iff : leafOf D e = .ok leaf ↔ leaf.event = e := by
  unfold leafOf
  constructor
  · intro h
    split at h
    · cases h
    · cases h
      rfl
  · rintro rfl
    split
    · rename_i text htext
      rw [leaf.canonical_event] at htext
      cases htext
    · rename_i canonical hcanonical
      have hsame := leaf.canonical_event
      rw [hcanonical] at hsame
      cases hsame
      rfl

/-- The log reads the canonical bytes of an event of its producer as the normal form of the event. -/
theorem parseEvent_canonical {inner : Event} {body : Json} (hbody : canonicalizeEvent D e = .ok body)
    (hraID : e.raID = D.raID) (h : parseEvent D.log .identity (.document body) D.raID = .ok inner) :
    inner = (eventCodec (D := D)).norm e := by
  obtain ⟨hdefect, rfl⟩ := canonicalizeEvent_eq_ok_iff.mp hbody
  simp only [parseEvent, TransparencyLog.Body.parse, bind_eq_ok_iff, mapError_eq_ok_iff,
    ok.injEq, exists_eq_left'] at h
  obtain ⟨decoded, hdecoded, _, _, hstamp⟩ := h
  have hdepth := (Json.unmarshal_eq_ok_iff.mp hdecoded).1
  rw [Json.depth_canonical] at hdepth
  have hnorm := Json.unmarshal_canonical (eventCodec) hdefect hdepth
  have hsame : decoded = (eventCodec).norm e := ok.inj (hdecoded.symm.trans hnorm)
  subst hsame
  unfold stampRaID at hstamp
  split at hstamp
  · rename_i hempty
    cases hstamp
    have hblank : D.raID = "" := by rw [← hraID, ← raID_norm]; exact hempty
    rw [hblank]
    change { (eventCodec).norm e with raID := "" } = _
    have hown : ((eventCodec).norm e).raID = "" := hempty
    rw [← hown]
  · simp only [bind_eq_ok_iff, pure_eq_ok_iff] at hstamp
    obtain ⟨_, _, rfl⟩ := hstamp
    rfl

/-- An append leaves the log as it is when the event is in it, and otherwise adds its leaf. -/
theorem appendEvent_ok {log' : List (Leaf D)} {body : Json} (hbody : canonicalizeEvent D e = .ok body)
    (hraID : e.raID = D.raID) (h : appendEvent D log body = .ok log') :
    (log' = log ∧ ∃ leaf ∈ log, leaf.canonical = body) ∨
      ∃ leaf : Leaf D, log' = log ++ [leaf] ∧ leaf.canonical = body ∧ ∀ l ∈ log, l.canonical ≠ body := by
  simp only [appendEvent, bind_eq_ok_iff, pure_eq_ok_iff] at h
  obtain ⟨inner, hinner, leaf, hleaf, rfl⟩ := h
  have hevent := leafOf_eq_ok_iff.mp hleaf
  have hcanonical : leaf.canonical = body := by
    have hleafBytes := (canonicalizeEvent_eq_ok_iff.mp leaf.canonical_event).2
    have hbodyBytes := (canonicalizeEvent_eq_ok_iff.mp hbody).2
    rw [← hleafBytes, ← hbodyBytes, hevent, parseEvent_canonical hbody hraID hinner, Codec.canonical_norm]
  split
  · rename_i hknown
    left
    rw [List.any_eq_true] at hknown
    obtain ⟨l, hl, hsame⟩ := hknown
    exact ⟨rfl, l, hl, (of_decide_eq_true hsame).trans hcanonical⟩
  · rename_i hnew
    right
    refine ⟨leaf, rfl, hcanonical, ?_⟩
    intro l hl hsame
    apply hnew
    rw [List.any_eq_true]
    exact ⟨l, hl, decide_eq_true (hsame.trans hcanonical.symm)⟩

end AgentNameService.Identity
