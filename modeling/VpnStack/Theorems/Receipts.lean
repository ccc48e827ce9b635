import VpnStack.Payload
import VpnStack.Control.Models
import VpnStack.Commands

/-!
# The receipts of the commands that apply

The app reads every field of a receipt as it was sent. But the set of keys it knows lacks four of those a converge adds, so
that for every command that converges it says the server is newer than the app.
-/

namespace VpnStack

open Control Payload Interaction

namespace Receipts

/-! ## What is claimed -/

/-- What the app's method for a command returns. -/
inductive Reply where
  | apply (result : Control.ApplyResult)
  | mutation (m : UserMutation)
  | enablement (e : UserEnablement)
  | toggle (t : ProtocolToggle)

/-- The decoder for the command, on its payload. -/
def decode (receipt : Receipt) (body : JsonMap) : Except VpnctlError Reply :=
  match receipt with
  | .apply .. => .apply <$> parse body fun json => ApplyResult.fromJson json [] []
  | .userAdd .. => .mutation <$> parse body UserMutation.fromJson
  | .userRm .. => .mutation <$> parse body UserMutation.fromJson
  | .setEnabled .. => .enablement <$> parse body UserEnablement.fromJson
  | .setProtocol .. => .toggle <$> parse body ProtocolToggle.fromJson

/-- The app reads the stdout of a command that exited 0. -/
def answer (receipt : Receipt) : Except VpnctlError Reply := do
  let body ← Control.run 0 receipt.stdout false
  decode receipt body

/-- What the app should make of a reconcile. -/
def received : Option Reconciled → Option Skipped → Option Ikev2Reconcile
  | some r, _ => some ⟨r.added, r.revoked, r.failed, none, none⟩
  | none, some .notRunning => some ⟨[], [], [], some "ikev2 container not running", none⟩
  | none, some (.listFailed listing) => some ⟨[], [], [], some "listclients failed", some listing⟩
  | none, none => none

/-- Every field is the one that was sent, and what was not sent is absent. -/
structure Same (r : VpnStack.ApplyResult) (prose : Prose) (a : Control.ApplyResult) : Prop where
  rendered : a.rendered = prose.candidate
  enabledProtocols : a.enabledProtocols = r.enabledProtocols.map (·.toList)
  restarted : a.restarted = r.restarted
  configChanged : a.configChanged = r.configChanged.map (·.map serviceName)
  convergePending : a.convergePending = r.convergePending
  teardown : a.teardown = if r.restarted then some prose.teardown else none
  ready : a.ready = if r.restarted then some prose.ready else none
  portsReady : a.portsReady = if r.restarted then r.portsReady else none
  firewall : a.firewall = if r.restarted then some prose.firewall else none
  ikev2Forwarding : a.ikev2Forwarding = if r.restarted then some prose.forwarding else none
  ikev2Reconcile : a.ikev2Reconcile = if r.restarted then received r.ikev2Reconcile prose.skipped else none

/-- The reply says what the receipt says. -/
def Faithful : Receipt → Reply → Prop
  | .apply r prose, .apply a => Same r prose a
  | .userAdd user r prose, .mutation m => m.user = user ∧ Same r prose m.apply
  | .userRm user r prose, .mutation m => m.user = user ∧ Same r prose m.apply
  | .setEnabled user enabled r prose, .enablement e => e.user = user ∧ e.enabled = enabled ∧ Same r prose e.apply
  | .setProtocol none, .toggle t => t.changed = false ∧ t.apply = none
  | .setProtocol (some (r, prose)), .toggle t => t.changed = true ∧ ∃ a, t.apply = some a ∧ Same r prose a
  | _, _ => False

/-- The keys the app reports as unknown. -/
def Reply.unknownKeys : Reply → List Text
  | .apply a => a.unknownKeys
  | .mutation m => m.apply.unknownKeys
  | .enablement e => e.apply.unknownKeys
  | .toggle t => (t.apply.map (·.unknownKeys)).getD []

/-- What is claimed of a receipt. -/
def Right (receipt : Receipt) : Prop :=
  ∃ reply, answer receipt = .ok reply ∧ Faithful receipt reply ∧ reply.unknownKeys = []

/-! ## The envelope -/

section Envelope

variable {data : JsonMap}

theorem lookup_eq_none_of_not_mem {key : Text} (h : key ∉ data.map (·.1)) : data.lookup key = none := by
  rw [List.lookup_eq_none_iff]
  intro member hmember
  have hne : key ≠ member.1 := fun heq => h (heq ▸ List.mem_map_of_mem hmember)
  simpa using hne

/-- The app gets what the command handed to `emit`, if it reported success or the caller takes less. -/
theorem run_emit {ok allowNotOk : Bool} (hok : ok = true ∨ allowNotOk = true) (h : ∀ key ∈ data.map (·.1), key ∉ envelopeKeys) :
    Control.run 0 (emit ok data) allowNotOk = .ok data := by
  have hloads : Json.loads (emit ok data) = some (.obj (("schema".toList, .num schema) :: ("ok".toList, .bool ok) :: data)) :=
    Json.loads_dumps _ (by decide)
  have hschema : (("schema".toList, Json.num schema) :: ("ok".toList, .bool ok) :: data).lookup "schema".toList =
      some (.num schema) := rfl
  have hlookup : (("schema".toList, Json.num schema) :: ("ok".toList, .bool ok) :: data).lookup "ok".toList = some (.bool ok) := rfl
  have herror : (("schema".toList, Json.num schema) :: ("ok".toList, .bool ok) :: data).lookup "error".toList = none :=
    @lookup_eq_none_of_not_mem data _ fun hmem => h _ hmem (by decide)
  have hfilter : (("schema".toList, Json.num schema) :: ("ok".toList, .bool ok) :: data).filter
      (fun member => member.1 ∉ envelopeKeys) = data := by
    refine (List.filter_cons_of_neg (by decide)).trans ((List.filter_cons_of_neg ?_).trans ?_)
    · change ¬ decide ("ok".toList ∉ envelopeKeys) = true
      decide
    exact List.filter_eq_self.mpr fun member hmember => decide_eq_true (h member.1 (List.mem_map_of_mem hmember))
  have htaken : ¬ ((0 : Int) ≠ 0 ∨ (!ok) = true ∧ (!allowNotOk) = true) := by
    rcases hok with rfl | rfl <;> simp
  have hint : (some (Json.num schema)).bind Dart.asInt = some (schema : Int) := rfl
  rw [Control.run, hloads]
  unfold unwrap
  rw [if_neg (by decide)]
  dsimp only
  rw [hschema, hint]
  dsimp only
  rw [if_neg (by decide), hlookup]
  dsimp only
  rw [herror]
  dsimp only [Option.getD]
  rw [if_neg htaken, hfilter]

end Envelope

/-! ## The result of `apply` -/

section Applied

variable {r : VpnStack.ApplyResult} {prose : Prose} {front : JsonMap} {consumed : List Text}

/-- What a reconcile was printed as is read back. -/
theorem reconcile_read {m : JsonMap} (h : reconcileResult r.ikev2Reconcile prose.skipped = some m) (location : Text) :
    some <$> Ikev2Reconcile.fromJson m location = .ok (received r.ikev2Reconcile prose.skipped) := by
  cases hr : r.ikev2Reconcile with
  | some reconciled =>
    rw [hr] at h
    cases h
    have hkeys : "skipped".toList ∉ ["added".toList, "revoked".toList, "failed".toList] := by decide
    have hskipped : "skipped".toList ∉ ([("added".toList, ofTexts reconciled.added), ("revoked".toList, ofTexts reconciled.revoked),
        ("failed".toList, ofTexts reconciled.failed)] : JsonMap).map (·.1) := hkeys
    rw [Ikev2Reconcile.fromJson, if_neg hskipped, rejectUnknown_ok (by simp), readStringList_of_lookup rfl,
      readStringList_of_lookup rfl, readStringList_of_lookup rfl]
    rfl
  | none =>
    rw [hr] at h
    cases hs : prose.skipped with
    | none =>
      rw [hs] at h
      cases h
    | some skipped =>
      rw [hs] at h
      cases skipped with
      | notRunning =>
        cases h
        rfl
      | listFailed listing =>
        cases h
        rfl

/-- The keys of a result, by whether it converged and has a reconcile. -/
def keysOf : Bool → Bool → List Text
  | false, _ => ["rendered", "enabled_protocols", "restarted", "config_changed", "converge_pending"]
  | true, false => ["rendered", "enabled_protocols", "restarted", "config_changed", "converge_pending", "teardown",
      "teardown_ok", "ready", "ports_ready", "not_running", "firewall", "firewall_ok", "ikev2_forwarding", "forwarding_ok"]
  | true, true => ["rendered", "enabled_protocols", "restarted", "config_changed", "converge_pending", "teardown",
      "teardown_ok", "ready", "ports_ready", "not_running", "firewall", "firewall_ok", "ikev2_reconcile",
      "ikev2_forwarding", "forwarding_ok"]

/-- The keys of a result are told by whether it converged and whether a reconcile is in it. -/
theorem keys_applyResult (r : VpnStack.ApplyResult) (prose : Prose) :
    (applyResult r prose).map (·.1) = keysOf r.restarted (reconcileResult r.ikev2Reconcile prose.skipped).isSome := by
  unfold applyResult convergeResult
  cases r.restarted with
  | false => rfl
  | true =>
    cases reconcileResult r.ikev2Reconcile prose.skipped with
    | none => rfl
    | some m => rfl

/-- Where a field of a converge is looked for. -/
def converged {α : Type} (r : VpnStack.ApplyResult) (value : α) : Option α := if r.restarted then some value else none

/-- The fields of a result, under their keys. -/
structure Fields (r : VpnStack.ApplyResult) (prose : Prose) (json : JsonMap) : Prop where
  rendered : json.lookup "rendered".toList = some (.str prose.candidate)
  enabledProtocols : json.lookup "enabled_protocols".toList = some (ofTexts (r.enabledProtocols.map (·.toList)))
  restarted : json.lookup "restarted".toList = some (.bool r.restarted)
  configChanged : json.lookup "config_changed".toList = some (ofNullableTexts (r.configChanged.map (·.map serviceName)))
  convergePending : json.lookup "converge_pending".toList = some (.bool r.convergePending)
  teardown : json.lookup "teardown".toList = converged r (.str prose.teardown)
  ready : json.lookup "ready".toList = converged r (ofTexts prose.ready)
  portsReady : json.lookup "ports_ready".toList = converged r (ofVerdict r.portsReady)
  firewall : json.lookup "firewall".toList = converged r (ofTexts prose.firewall)
  ikev2Forwarding : json.lookup "ikev2_forwarding".toList = converged r (.str prose.forwarding)
  ikev2Reconcile : json.lookup "ikev2_reconcile".toList =
    if r.restarted then (reconcileResult r.ikev2Reconcile prose.skipped).map .obj else none

/-- A result holds under each key what was put there. -/
theorem fields_applyResult (r : VpnStack.ApplyResult) (prose : Prose) : Fields r prose (applyResult r prose) := by
  unfold applyResult convergeResult
  cases hr : r.restarted with
  | false => constructor <;> first | rfl | (rw [converged, hr]; rfl) | (rw [hr]; rfl)
  | true =>
    cases hm : reconcileResult r.ikev2Reconcile prose.skipped with
    | none => constructor <;> first | rfl | (rw [converged, hr]; rfl) | (rw [hr]; rfl) | (rw [hr, hm]; rfl)
    | some m => constructor <;> first | rfl | (rw [converged, hr]; rfl) | (rw [hr]; rfl) | (rw [hr, hm]; rfl)

/-- What stands in front of a result under other keys hides none of its fields. -/
theorem lookup_front {json : JsonMap} {key : Text} (h : key ∉ front.map (·.1)) :
    (front ++ json).lookup key = json.lookup key := by
  rw [List.lookup_append, lookup_eq_none_of_not_mem h]
  rfl

/-- A result holds the same behind members that have other keys. -/
theorem Fields.behind {json : JsonMap} (h : Fields r prose json) (hfront : ∀ key ∈ ApplyResult.keys, key ∉ front.map (·.1)) :
    Fields r prose (front ++ json) := by
  have hsame : ∀ key ∈ ApplyResult.keys, (front ++ json).lookup key = json.lookup key := fun key hkey =>
    lookup_front (hfront key hkey)
  exact ⟨(hsame _ (by decide)).trans h.rendered, (hsame _ (by decide)).trans h.enabledProtocols,
    (hsame _ (by decide)).trans h.restarted, (hsame _ (by decide)).trans h.configChanged,
    (hsame _ (by decide)).trans h.convergePending, (hsame _ (by decide)).trans h.teardown, (hsame _ (by decide)).trans h.ready,
    (hsame _ (by decide)).trans h.portsReady, (hsame _ (by decide)).trans h.firewall,
    (hsame _ (by decide)).trans h.ikev2Forwarding, (hsame _ (by decide)).trans h.ikev2Reconcile⟩

/-- What is decoded of a result. -/
def decoded (r : VpnStack.ApplyResult) (prose : Prose) (unknownKeys : List Text) : Control.ApplyResult where
  rendered := prose.candidate
  enabledProtocols := r.enabledProtocols.map (·.toList)
  restarted := r.restarted
  configChanged := r.configChanged.map (·.map serviceName)
  convergePending := r.convergePending
  teardown := if r.restarted then some prose.teardown else none
  ready := if r.restarted then some prose.ready else none
  portsReady := if r.restarted then r.portsReady else none
  firewall := if r.restarted then some prose.firewall else none
  ikev2Forwarding := if r.restarted then some prose.forwarding else none
  ikev2Reconcile := if r.restarted then received r.ikev2Reconcile prose.skipped else none
  unknownKeys := unknownKeys

theorem same_decoded (unknownKeys : List Text) : Same r prose (decoded r prose unknownKeys) :=
  ⟨rfl, rfl, rfl, rfl, rfl, rfl, rfl, rfl, rfl, rfl, rfl⟩

section Readers

variable {json : JsonMap} {key location : Text}

/-- A text that only a convergence has is read with one, and is null without. -/
theorem read_converged_string {t : Text} (h : json.lookup key = converged r (.str t)) :
    readNullableString json key location = .ok (if r.restarted then some t else none) := by
  by_cases hr : r.restarted = true
  · rw [converged, if_pos hr] at h
    rw [if_pos hr]
    exact readNullableString_of_lookup h
  · rw [converged, if_neg hr] at h
    rw [if_neg hr]
    exact readNullableString_of_absent h

/-- A list of texts that only a convergence has is read with one, and is null without. -/
theorem read_converged_texts {ts : List Text} (h : json.lookup key = converged r (ofTexts ts)) :
    readNullableStringList json key location = .ok (if r.restarted then some ts else none) := by
  by_cases hr : r.restarted = true
  · rw [converged, if_pos hr] at h
    rw [if_pos hr]
    exact @readNullableStringList_of_lookup _ _ _ (some ts) h
  · rw [converged, if_neg hr] at h
    rw [if_neg hr]
    exact readNullableStringList_of_absent h

/-- A verdict that only a convergence has is read with one, and is null without. -/
theorem read_converged_verdict {b : Option Bool} (h : json.lookup key = converged r (ofVerdict b)) :
    readNullableBool json key location = .ok (if r.restarted then b else none) := by
  by_cases hr : r.restarted = true
  · rw [converged, if_pos hr] at h
    rw [if_pos hr]
    exact readNullableBool_of_lookup h
  · rw [converged, if_neg hr] at h
    rw [if_neg hr]
    exact readNullableBool_of_absent h

/-- A key that is found is one of the keys. -/
theorem mem_keys_of_lookup {value : Json} (h : json.lookup key = some value) : key ∈ json.map (·.1) := by
  by_contra hnot
  rw [lookup_eq_none_of_not_mem hnot] at h
  cases h

/-- A key that is not found is none of them. -/
theorem not_mem_keys_of_lookup (h : json.lookup key = none) : key ∉ json.map (·.1) := by
  intro hmem
  obtain ⟨member, hmember, rfl⟩ := List.mem_map.mp hmem
  have hne := List.lookup_eq_none_iff.mp h member hmember
  simp at hne

end Readers

/-- The reconcile is read as it was sent. -/
theorem readReconcile_fields {json : JsonMap} (h : Fields r prose json) :
    ApplyResult.readReconcile json [] = .ok (if r.restarted then received r.ikev2Reconcile prose.skipped else none) := by
  have hlookup := h.ikev2Reconcile
  unfold ApplyResult.readReconcile
  by_cases hr : r.restarted = true
  · rw [if_pos hr] at hlookup ⊢
    cases hm : reconcileResult r.ikev2Reconcile prose.skipped with
    | some m =>
      rw [hm] at hlookup
      rw [if_pos (mem_keys_of_lookup hlookup), readObject_of_lookup hlookup]
      exact reconcile_read hm _
    | none =>
      rw [hm] at hlookup
      rw [if_neg (not_mem_keys_of_lookup hlookup)]
      have hnone : received r.ikev2Reconcile prose.skipped = none := by
        revert hm
        cases r.ikev2Reconcile with
        | some _ => exact nofun
        | none =>
          cases prose.skipped with
          | none => exact fun _ => rfl
          | some skipped => cases skipped <;> exact nofun
      rw [hnone]
      rfl
  · rw [if_neg hr] at hlookup ⊢
    rw [if_neg (not_mem_keys_of_lookup hlookup)]
    rfl

/-- Every field of a result is read as it was sent. -/
theorem fromJson_fields {json : JsonMap} (h : Fields r prose json) :
    ApplyResult.fromJson json consumed [] = .ok (decoded r prose (unknown json consumed)) := by
  unfold ApplyResult.fromJson
  rw [readReconcile_fields h, readString_of_lookup h.rendered, readStringList_of_lookup h.enabledProtocols,
    readBool_of_lookup h.restarted, readNullableStringList_of_lookup h.configChanged, readBool_of_lookup h.convergePending,
    read_converged_string h.teardown, read_converged_texts h.ready, read_converged_verdict h.portsReady,
    read_converged_texts h.firewall, read_converged_string h.ikev2Forwarding]
  rfl

/-- The keys a converge adds that the app does not know. -/
def strangers : List Text := ["firewall_ok", "forwarding_ok", "not_running", "teardown_ok"]

/-- What the commands put in front of a result. -/
def ownKeys : List Text := ["user", "enabled", "changed"]

theorem keysOf_not_own : ∀ restarted reconciled, ∀ key ∈ keysOf restarted reconciled, key ∉ ownKeys := by decide

theorem keysOf_not_envelope : ∀ restarted reconciled, ∀ key ∈ keysOf restarted reconciled, key ∉ envelopeKeys := by decide

/-- Of the keys of a result the app does not know the four of a convergence. -/
theorem keysOf_unknown : ∀ restarted reconciled,
    Dart.sort ((keysOf restarted reconciled).filter fun key => key ∉ ApplyResult.keys) = if restarted then strangers else [] := by
  decide

/-- Of a whole payload the app does not know the four keys of a convergence. -/
theorem unknown_result (front : JsonMap) (consumed : List Text) (hfront : ∀ key ∈ front.map (·.1), key ∈ consumed)
    (hconsumed : consumed ⊆ ownKeys) :
    unknown (front ++ applyResult r prose) consumed = if r.restarted then strangers else [] := by
  have hown : (front.map (·.1)).filter (fun key => key ∉ ApplyResult.keys ∧ key ∉ consumed) = [] :=
    List.filter_eq_nil_iff.mpr fun key hkey hkeep => (of_decide_eq_true hkeep).2 (hfront key hkey)
  have hrest : ((applyResult r prose).map (·.1)).filter (fun key => key ∉ ApplyResult.keys ∧ key ∉ consumed) =
      ((applyResult r prose).map (·.1)).filter (fun key => key ∉ ApplyResult.keys) := by
    refine List.filter_congr fun key hkey => decide_eq_decide.mpr (and_iff_left fun hmem => ?_)
    rw [keys_applyResult] at hkey
    exact keysOf_not_own _ _ key hkey (hconsumed hmem)
  rw [unknown, List.map_append, List.filter_append, hown, hrest, keys_applyResult, List.nil_append]
  exact keysOf_unknown _ _

/-- The keys of the envelope are none of a payload. -/
theorem run_result (front : JsonMap) (hfront : ∀ key ∈ front.map (·.1), key ∈ ownKeys) :
    Control.run 0 (emit true (front ++ applyResult r prose)) false = .ok (front ++ applyResult r prose) := by
  have hown : ∀ key ∈ ownKeys, key ∉ envelopeKeys := by decide
  refine run_emit (.inl rfl) fun key hkey => ?_
  rw [List.map_append, List.mem_append, keys_applyResult] at hkey
  exact hkey.elim (fun h => hown key (hfront key h)) (keysOf_not_envelope _ _ key)

/-- The result behind what a command puts in front of it. -/
theorem fromJson_result (front : JsonMap) (consumed : List Text) (hfront : ∀ key ∈ front.map (·.1), key ∈ consumed)
    (hconsumed : consumed ⊆ ownKeys) :
    ApplyResult.fromJson (front ++ applyResult r prose) consumed [] =
      .ok (decoded r prose (if r.restarted then strangers else [])) := by
  have hown : ∀ key ∈ ownKeys, key ∉ ApplyResult.keys := by decide
  have hfields := (fields_applyResult r prose).behind fun key hkey hmem => hown key (hconsumed (hfront key hmem)) hkey
  rw [fromJson_fields hfields, unknown_result front consumed hfront hconsumed]

end Applied

/-! ## The results there are -/

section Results

variable {host : Host} {w : World} {α β : Type}

/-- Nothing is said of a script. -/
theorem ends_nothing (p : Cmd α) :
    ends (server host) (.any Op World Choice) p (fun _ _ => True) (fun _ _ => True) (fun _ => True) w :=
  ends_of_uses (Script.uses_true p) (fun _ _ _ _ _ _ => trivial) trivial

/-- What is said of the rest, whatever the first part did. -/
theorem ends_rest {p : Cmd β} {f : β → Cmd α} {Q : α → World → Prop}
    (hf : ∀ b w, ends (server host) (.any Op World Choice) (f b) Q (fun _ _ => True) (fun _ => True) w) :
    ends (server host) (.any Op World Choice) (p >>= f) Q (fun _ _ => True) (fun _ => True) w :=
  ends_seq (ends_nothing p) fun b w _ => hf b w

/-- The steps behind `up` leave it as it is whether the containers were restarted. -/
theorem convergeRest_restarted (py : Python.CaseMap) (enabled : List Protocol) (result : VpnStack.ApplyResult) :
    ends (server host) (.any Op World Choice) (convergeRest py enabled result) (fun r _ => r.restarted = result.restarted)
      (fun _ _ => True) (fun _ => True) w := by
  refine ends_rest fun teardown w => ends_rest fun ready w => ends_rest fun stopped w => ends_rest fun firewall w => ?_
  refine ends_ite (fun _ => ends_rest fun running w => ends_ite (fun _ => ends_rest fun reconciled w => ?_) fun _ => rfl) fun _ => rfl
  cases reconciled with
  | none => exact rfl
  | some reconciled => exact ends_rest fun _ w => rfl

/-- A candidate's result says that the containers were restarted exactly if that was asked for. -/
theorem applyCandidate_restarted (py : Python.CaseMap) (restart : Bool) (enabled : List Protocol) (candidate : Gen) :
    ends (server host) (.any Op World Choice) (applyCandidate py restart enabled candidate) (fun r _ => r.restarted = restart)
      (fun _ _ => True) (fun _ => True) w := by
  refine ends_rest fun r w => ?_
  obtain ⟨⟨previous, inherited⟩, -⟩ := r
  refine ends_rest fun diff w => ends_rest fun _ w => ends_ite (fun hrestart => ?_) fun _ => rfl
  refine ends_seq (M := fun r _ => r.1.restarted = restart)
    (ends_tryFinally.mpr (ends_mono (Q := fun r _ => r.restarted = restart) (E := fun _ _ => True) (D := fun _ => True) ?_
      (fun r w hr => ?_) (fun _ w _ => ends_nothing _) fun _ h => h)) fun r w hr => ?_
  · exact ends_rest fun ok w => ends_ite (fun _ => convergeRest_restarted py enabled _) fun _ => trivial
  · exact ends_mono (ends_nothing _) (fun _ _ _ => hr) (fun _ _ h => h) fun _ h => h
  · obtain ⟨result, forwarding⟩ := r
    exact ends_rest fun st w => ends_rest fun _ w => hr

/-- So does the result that `apply` returns. -/
theorem apply_restarted (py : Python.CaseMap) (restart : Bool) :
    ends (server host) (.any Op World Choice) (apply py restart) (fun r _ => r.restarted = restart) (fun _ _ => True)
      (fun _ => True) w := by
  refine ends_rest fun _ w => ends_rest fun _ w => ends_rest fun st w => ends_rest fun gaps w => ends_ite (fun _ => ?_)
    fun _ => trivial
  refine ends_rest fun r w => ?_
  obtain ⟨tree, enabled⟩ := r
  refine ends_rest fun candidate w => ends_rest fun _ w => ?_
  refine ends_seq (M := fun r _ => r.1.restarted = restart) (ends_tryFinally.mpr (ends_mono
    (applyCandidate_restarted py restart enabled candidate) (fun r w hr => ?_) (fun _ w _ => ends_nothing _) fun _ h => h))
    fun r w hr => hr
  exact ends_mono (ends_nothing _) (fun _ _ _ => hr) (fun _ _ h => h) fun _ h => h

end Results

/-! ## Every receipt -/

/-- What is decoded of an applied result. -/
def decodedOf (a : VpnStack.ApplyResult × Prose) : Control.ApplyResult :=
  decoded a.1 a.2 (if a.1.restarted then strangers else [])

/-- What the app makes of a receipt. -/
def replyTo : Receipt → Reply
  | .apply r prose => .apply (decodedOf (r, prose))
  | .userAdd user r prose => .mutation ⟨user, decodedOf (r, prose)⟩
  | .userRm user r prose => .mutation ⟨user, decodedOf (r, prose)⟩
  | .setEnabled user enabled r prose => .enablement ⟨user, enabled, decodedOf (r, prose)⟩
  | .setProtocol none => .toggle ⟨false, none⟩
  | .setProtocol (some a) => .toggle ⟨true, some (decodedOf a)⟩

section Every

variable {r : VpnStack.ApplyResult} {prose : Prose}

/-- What `user add` and `user rm` print is read as it was meant. -/
theorem mutation_fromJson (user : Text) : UserMutation.fromJson ([("user".toList, .str user)] ++ applyResult r prose) =
    .ok ⟨user, decodedOf (r, prose)⟩ := by
  rw [UserMutation.fromJson, readString_of_lookup (t := user) rfl,
    fromJson_result [("user".toList, .str user)] ["user"] (fun _ h => h) (by decide)]
  rfl

/-- What `user enable` and `user disable` print is read as it was meant. -/
theorem enablement_fromJson (user : Text) (enabled : Bool) :
    UserEnablement.fromJson ([("user".toList, .str user), ("enabled".toList, .bool enabled)] ++ applyResult r prose) =
      .ok ⟨user, enabled, decodedOf (r, prose)⟩ := by
  rw [UserEnablement.fromJson, readString_of_lookup (t := user) rfl, readBool_of_lookup (b := enabled) rfl,
    fromJson_result [("user".toList, .str user), ("enabled".toList, .bool enabled)] ["user", "enabled"] (fun _ h => h) (by decide)]
  rfl

/-- What a `protocol on` that changed something prints is read as it was meant. -/
theorem toggle_fromJson : ProtocolToggle.fromJson ([("changed".toList, .bool true)] ++ applyResult r prose) =
    .ok ⟨true, some (decodedOf (r, prose))⟩ := by
  rw [ProtocolToggle.fromJson, readBool_of_lookup (b := true) rfl]
  change (do
    let apply ← ApplyResult.fromJson ([("changed".toList, .bool true)] ++ applyResult r prose) ["changed"] []
    return ⟨true, some apply⟩ : Decoded ProtocolToggle) = _
  rw [fromJson_result [("changed".toList, .bool true)] ["changed"] (fun _ h => h) (by decide)]
  rfl

end Every

/-- What is read of a receipt is what its decoder makes of what was handed to `emit`. -/
theorem answer_of_run (receipt : Receipt) {front : JsonMap} {r : VpnStack.ApplyResult} {prose : Prose}
    (hdata : receipt.data = front ++ applyResult r prose) (hfront : ∀ key ∈ front.map (·.1), key ∈ ownKeys) :
    answer receipt = decode receipt (front ++ applyResult r prose) := by
  rw [answer, Receipt.stdout, hdata, run_result front hfront]
  rfl

theorem parse_ok {α : Type} {body : JsonMap} {fromJson : JsonMap → Decoded α} {a : α} (h : fromJson body = .ok a) :
    parse body fromJson = .ok a := by rw [parse, h]

/-- Every receipt is accepted. -/
theorem answer_eq (receipt : Receipt) : answer receipt = .ok (replyTo receipt) := by
  cases receipt with
  | apply r prose =>
    rw [answer_of_run (.apply r prose) (List.nil_append _).symm fun _ h => absurd h List.not_mem_nil]
    rw [decode, parse_ok (fromJson_result [] [] (fun _ h => h) (by decide))]
    rfl
  | userAdd user r prose =>
    have hfront : ∀ key ∈ ["user".toList], key ∈ ownKeys := by decide
    rw [answer_of_run (.userAdd user r prose) (List.singleton_append ..).symm hfront]
    rw [decode, parse_ok (mutation_fromJson user)]
    rfl
  | userRm user r prose =>
    have hfront : ∀ key ∈ ["user".toList], key ∈ ownKeys := by decide
    rw [answer_of_run (.userRm user r prose) (List.singleton_append ..).symm hfront]
    rw [decode, parse_ok (mutation_fromJson user)]
    rfl
  | setEnabled user enabled r prose =>
    have hfront : ∀ key ∈ ["user".toList, "enabled".toList], key ∈ ownKeys := by decide
    have hdata : (Receipt.setEnabled user enabled r prose).data =
        [("user".toList, .str user), ("enabled".toList, .bool enabled)] ++ applyResult r prose := rfl
    rw [answer_of_run (.setEnabled user enabled r prose) hdata hfront]
    rw [decode, parse_ok (enablement_fromJson user enabled)]
    rfl
  | setProtocol a =>
    cases a with
    | none =>
      have hkeys : ∀ key ∈ [("changed".toList, Json.bool false)].map (·.1), key ∉ envelopeKeys := by decide
      have hrun : Control.run 0 (emit true [("changed".toList, .bool false)]) false = .ok [("changed".toList, .bool false)] :=
        run_emit (.inl rfl) hkeys
      rw [answer, Receipt.stdout, Receipt.data, hrun]
      rfl
    | some a =>
      have hfront : ∀ key ∈ ["changed".toList], key ∈ ownKeys := by decide
      rw [answer_of_run (.setProtocol (some a)) (List.singleton_append ..).symm hfront]
      rw [decode, parse_ok toggle_fromJson]
      rfl

/-- The reply to a receipt says what the receipt does. -/
theorem faithful_replyTo (receipt : Receipt) : Faithful receipt (replyTo receipt) := by
  cases receipt with
  | apply r prose => exact same_decoded _
  | userAdd user r prose => exact ⟨rfl, same_decoded _⟩
  | userRm user r prose => exact ⟨rfl, same_decoded _⟩
  | setEnabled user enabled r prose => exact ⟨rfl, rfl, same_decoded _⟩
  | setProtocol a =>
    cases a with
    | none => exact ⟨rfl, rfl⟩
    | some a => exact ⟨rfl, _, rfl, same_decoded _⟩

/-- A decoded result knows every key exactly where it did not converge. -/
theorem unknownKeys_decodedOf (a : VpnStack.ApplyResult × Prose) : (decodedOf a).unknownKeys = [] ↔ ¬ a.1.restarted = true := by
  change (if a.1.restarted = true then strangers else []) = [] ↔ _
  cases a.1.restarted with
  | true => exact iff_of_false (by decide) (by decide)
  | false => exact iff_of_true rfl (by decide)

/-- The reply to a receipt knows every key exactly where the command did not converge. -/
theorem unknownKeys_replyTo (receipt : Receipt) : (replyTo receipt).unknownKeys = [] ↔ ¬ receipt.Converged := by
  have hsome : ∀ a : VpnStack.ApplyResult × Prose, (¬ ∃ b ∈ some a, b.1.restarted = true) ↔ ¬ a.1.restarted = true := by
    intro a
    simp
  cases receipt with
  | apply r prose => exact (unknownKeys_decodedOf (r, prose)).trans (hsome (r, prose)).symm
  | userAdd user r prose => exact (unknownKeys_decodedOf (r, prose)).trans (hsome (r, prose)).symm
  | userRm user r prose => exact (unknownKeys_decodedOf (r, prose)).trans (hsome (r, prose)).symm
  | setEnabled user enabled r prose => exact (unknownKeys_decodedOf (r, prose)).trans (hsome (r, prose)).symm
  | setProtocol a =>
    cases a with
    | none => exact iff_of_true rfl (by rintro ⟨b, hb, -⟩; cases hb)
    | some a => exact (unknownKeys_decodedOf a).trans (hsome a).symm

/-- An applied result is read right exactly if nothing was restarted for it. -/
theorem right_of_converged (receipt : Receipt) : Right receipt ↔ ¬ receipt.Converged := by
  constructor
  · rintro ⟨reply, hanswer, -, hunknown⟩
    rw [answer_eq] at hanswer
    cases hanswer
    exact (unknownKeys_replyTo receipt).mp hunknown
  · exact fun h => ⟨replyTo receipt, answer_eq receipt, faithful_replyTo receipt, (unknownKeys_replyTo receipt).mpr h⟩

/-- A receipt is accepted and read as it was sent; it holds no key that is unknown exactly where its command did not converge. Whatever
`apply` returns, from any world, its receipt is of that kind exactly with `--no-restart`. -/
theorem right_iff (receipt : Receipt) (py : Python.CaseMap) (restart : Bool) (host : Host) (cs : List Choice) (w w' : World)
    (prose : Prose) :
    (Right receipt ↔ ¬ receipt.Converged) ∧
      ∀ r, (apply py restart).run (server host) cs w = (some (.ok r), w') → (Right (.apply r prose) ↔ restart = false) := by
  refine ⟨right_of_converged receipt, fun r hrun => ?_⟩
  have hends : ends (server host) (.any Op World Choice) (apply py restart) (fun r _ => r.restarted = restart) (fun _ _ => True)
      (fun _ => True) w := apply_restarted py restart
  have hrestarted := ends_run_any hends cs
  rw [hrun] at hrestarted
  rw [right_of_converged]
  change ¬ (∃ b ∈ some (r, prose), b.1.restarted = true) ↔ _
  have hsome : (∃ b ∈ some (r, prose), b.1.restarted = true) ↔ r.restarted = true := by simp
  rw [hsome, show r.restarted = restart from hrestarted, Bool.not_eq_true]

/-- What `user add` prints where everything went well. -/
def goodReceipt : Receipt :=
  .userAdd "alice"
    { rendered := 0, enabledProtocols := ["vless-reality"], restarted := true, configChanged := some [.singBox],
      convergePending := false, teardownOk := some true, portsReady := some true, notRunning := some [],
      firewallOk := some true, forwardingOk := some true }
    { candidate := "rendered-1757340000", teardown := "nothing to tear down", ready := ["all 1 port(s) bound"],
      firewall := ["firewall already matches the enabled set"], skipped := none, forwarding := "no rules to remove" }

/-- The app takes the server for a newer one. -/
theorem right_goodReceipt : ¬ ∀ receipt, Right receipt := by
  intro h
  obtain ⟨reply, hanswer, -, hunknown⟩ := h goodReceipt
  rw [answer_eq] at hanswer
  cases hanswer
  exact absurd hunknown (by decide)

end Receipts

end VpnStack
