import Fhttp.Http2.ReadLoop

/-!
# The settings that a client advertises

A new connection sends the settings in `SettingsOrder`, each with its value in the map
`Settings`, and does its own bookkeeping from the map alone: the window of a stream and
the table size of the header decoder.  The two agree under conditions on the map and the
order (`newClientConn_settings_iff`).
-/

namespace Fhttp.Http2

open List

/-! ## What the peer applies -/

/-- The settings in the frames that were written. -/
def sentSettings (out : List WriteCall) : List Setting :=
  out.flatMap fun c =>
    match c with
    | .settings settings => settings
    | _ => []

/-- The value of a setting that the peer applies: the last one that was sent, or the
default when none was. -/
def appliedSetting (out : List WriteCall) (id : SettingID) (default : UInt32) : UInt32 :=
  ((((sentSettings out).filter (·.id == id)).getLast?).map Setting.val).getD default

theorem sentSettings_send {cc : ClientConn} {c : WriteCall}
    (hc : ∀ settings, c ≠ .settings settings) :
    sentSettings (cc.send c).out = sentSettings cc.out := by
  simp only [ClientConn.send]
  split
  · unfold sentSettings
    rw [flatMap_append, flatMap_singleton]
    cases c with
    | settings settings => exact (hc settings rfl).elim
    | _ => exact append_nil _
  · rfl

theorem isOk_settings (settings : List Setting) :
    ((WriteCall.settings settings).write false).isOk = decide (6 * settings.length < 2 ^ 24) := by
  rw [WriteCall.write, writeSettings, isOk_endWrite, length_settingsBytes, Nat.mul_comm]

theorem sentSettings_send_settings (cc : ClientConn) (settings : List Setting) :
    sentSettings (cc.send (.settings settings)).out =
      sentSettings cc.out ++ if 6 * settings.length < 2 ^ 24 then settings else [] := by
  simp only [ClientConn.send]
  rw [isOk_settings]
  by_cases hlen : 6 * settings.length < 2 ^ 24
  · rw [if_pos (decide_eq_true hlen), if_pos hlen]
    unfold sentSettings
    rw [flatMap_append, flatMap_singleton]
  · rw [if_neg (by simpa using hlen), if_neg hlen, append_nil]

namespace Transport

theorem writePriorities_fields (priorities : List Priority) (cc : ClientConn) :
    sentSettings (priorities.foldl writePriority cc).out = sentSettings cc.out ∧
      (priorities.foldl writePriority cc).streamFlow = cc.streamFlow ∧
      (priorities.foldl writePriority cc).fr = cc.fr := by
  induction priorities generalizing cc with
  | nil => exact ⟨rfl, rfl, rfl⟩
  | cons p priorities ih =>
    rw [foldl_cons]
    obtain ⟨hsent, hflow, hfr⟩ := ih (writePriority cc p)
    rw [hsent, hflow, hfr]
    refine ⟨sentSettings_send fun _ h => ?_, rfl, rfl⟩
    cases h

variable {t : Transport} {singleUse : Bool} {cc : ClientConn}

/-- What the bookkeeping of a new connection rests on. -/
theorem newClientConn_fields (h : t.newClientConn singleUse = .ok cc) :
    cc.streamFlow = t.streamFlow ∧
      cc.fr.readMetaHeaders =
        some (Hpack.Decoder.new ((t.setting? .headerTableSize).getD initialHeaderTableSize)) ∧
      sentSettings cc.out =
        if 6 * t.initialSettings.length < 2 ^ 24 then t.initialSettings else [] := by
  unfold newClientConn at h
  split at h
  · cases h
  split at h
  · cases h
  cases h
  obtain ⟨hsent, hflow, hfr⟩ := writePriorities_fields t.priorities _
  rw [hsent, hflow, hfr]
  split
  · rw [sentSettings_send (by simp), sentSettings_send_settings]
    exact ⟨rfl, rfl, nil_append _⟩
  · rw [sentSettings_send_settings]
    exact ⟨rfl, rfl, nil_append _⟩

/-- The value that the peer applies of settings that are sent in an order. -/
theorem last_of_order (order : List SettingID) (value : SettingID → UInt32) (id : SettingID)
    (default : UInt32) :
    (((((order.map fun id => ({ id := id, val := value id } : Setting)).filter
      (·.id == id)).getLast?).map Setting.val).getD default) =
        if id ∈ order then value id else default := by
  cases hlast : ((order.map fun id => ({ id := id, val := value id } : Setting)).filter
      (·.id == id)).getLast? with
  | none =>
    rw [getLast?_eq_none_iff, filter_eq_nil_iff] at hlast
    refine (if_neg fun hmem => ?_).symm
    exact hlast _ (mem_map_of_mem hmem) (beq_self_eq_true id)
  | some s =>
    obtain ⟨hmap, hid⟩ := mem_filter.mp (mem_of_getLast? hlast)
    obtain ⟨id', hmem, rfl⟩ := mem_map.mp hmap
    obtain rfl : id' = id := eq_of_beq hid
    exact (if_pos hmem).symm

/-- The setting is in the frame that a new connection sends.  A frame with more settings
than fit into one is not sent. -/
def advertises (t : Transport) (id : SettingID) : Prop :=
  t.settings.isSome ∧ id ∈ t.settingsOrder ∧ 6 * t.settingsOrder.length < 2 ^ 24

instance decidableAdvertises (t : Transport) (id : SettingID) : Decidable (t.advertises id) :=
  inferInstanceAs (Decidable (_ ∧ _ ∧ _))

theorem appliedSetting_newClientConn (h : t.newClientConn singleUse = .ok cc) {id : SettingID}
    (hid : id ≠ .enablePush) (default : UInt32) :
    appliedSetting cc.out id default =
      if t.advertises id then (t.setting? id).getD 0 else default := by
  unfold appliedSetting
  rw [(newClientConn_fields h).2.2]
  cases hs : t.settings with
  | none =>
    have hnot : ¬ t.advertises id := by
      rintro ⟨hsome, -⟩
      rw [hs] at hsome
      cases hsome
    have hinit : t.initialSettings =
        [{ id := .enablePush, val := if t.pushHandler then 1 else 0 }] := by
      rw [initialSettings, hs]
    have hother : (SettingID.enablePush == id) = false := beq_false_of_ne hid.symm
    rw [if_neg hnot, hinit, length_singleton, if_pos (by decide), filter_singleton]
    simp only [hother, cond_false]
    rfl
  | some settings =>
    have hinit : t.initialSettings =
        t.settingsOrder.map fun id => { id := id, val := (settings id).getD 0 } := by
      rw [initialSettings, hs]
    rw [hinit, length_map, setting?, hs, Option.bind_some]
    by_cases hlen : 6 * t.settingsOrder.length < 2 ^ 24
    · rw [if_pos hlen, last_of_order]
      have hiff : t.advertises id ↔ id ∈ t.settingsOrder := by
        unfold advertises
        rw [hs]
        simp only [Option.isSome_some, hlen, and_true, true_and]
      simp only [hiff]
    · rw [if_neg hlen, if_neg fun hadv => hlen hadv.2.2]
      rfl

/-- The window of a stream is the one that is advertised, or the default. -/
def windowMatches (t : Transport) : Prop :=
  if t.advertises .initialWindowSize then
    (t.setting? .initialWindowSize).isSome ∧ t.setting? .initialWindowSize ≠ some 0
  else t.setting? .initialWindowSize ∈ [none, some 0, some initialWindowSize]

/-- The table size of the header decoder is the one that is advertised, or the default. -/
def tableMatches (t : Transport) : Prop :=
  if t.advertises .headerTableSize then (t.setting? .headerTableSize).isSome
  else t.setting? .headerTableSize ∈ [none, some initialHeaderTableSize]

theorem newClientConn_settings_iff {t : Transport} {singleUse : Bool} {cc : ClientConn}
    (h : t.newClientConn singleUse = .ok cc) :
    (cc.streamFlow = appliedSetting cc.out .initialWindowSize initialWindowSize ↔
      t.windowMatches) ∧
    (cc.fr.readMetaHeaders.map (·.dynTab.allowedMaxSize) =
        some (appliedSetting cc.out .headerTableSize initialHeaderTableSize) ↔
      t.tableMatches) := by
  obtain ⟨hflow, hdec, -⟩ := newClientConn_fields h
  rw [appliedSetting_newClientConn h (by decide), appliedSetting_newClientConn h (by decide),
    hflow, hdec]
  unfold windowMatches tableMatches streamFlow
  constructor
  · by_cases hadv : t.advertises .initialWindowSize
    · rw [if_pos hadv, if_pos hadv]
      cases t.setting? .initialWindowSize with
      | none => decide
      | some v =>
        by_cases hv : v = 0
        · simp [hv, initialWindowSize]
        · simp [hv]
    · rw [if_neg hadv, if_neg hadv]
      cases t.setting? .initialWindowSize with
      | none => decide
      | some v =>
        by_cases hv : v = 0
        · simp [hv]
        · simp [hv]
  · have hallowed : ∀ size, (Hpack.Decoder.new size).dynTab.allowedMaxSize = size :=
      fun size => Hpack.DynamicTable.setMaxSize_allowedMaxSize _ size
    rw [Option.map_some, Option.some_inj, hallowed]
    by_cases hadv : t.advertises .headerTableSize
    · rw [if_pos hadv, if_pos hadv]
      cases t.setting? .headerTableSize with
      | none => decide
      | some v => simp
    · rw [if_neg hadv, if_neg hadv]
      cases t.setting? .headerTableSize with
      | none => decide
      | some v => simp

/-- The map has the window and the order has it too. -/
def advertisedTransport : Transport where
  settings := some fun id =>
    if id = .initialWindowSize then some 131072
    else if id = .headerTableSize then some 65536
    else none
  settingsOrder := [.headerTableSize, .initialWindowSize]

theorem newClientConn_settings_iff_advertised :
    ∃ cc, advertisedTransport.newClientConn false = .ok cc ∧
      cc.streamFlow = appliedSetting cc.out .initialWindowSize initialWindowSize ∧
      cc.fr.readMetaHeaders.map (·.dynTab.allowedMaxSize) =
        some (appliedSetting cc.out .headerTableSize initialHeaderTableSize) := by
  obtain ⟨cc, h⟩ : ∃ cc, advertisedTransport.newClientConn false = .ok cc := ⟨_, rfl⟩
  obtain ⟨hwindow, htable⟩ := newClientConn_settings_iff h
  refine ⟨cc, h, hwindow.mpr ?_, htable.mpr ?_⟩
  · unfold windowMatches
    decide
  · unfold tableMatches
    decide

/-- The order names settings that the map does not have. -/
def unsetTransport : Transport where
  settings := some fun _ => none
  settingsOrder := [.headerTableSize, .initialWindowSize]

/-- The peer is told that both are zero. -/
theorem advertised_zero :
    ∃ cc, unsetTransport.newClientConn false = .ok cc ∧
      cc.streamFlow = 65535 ∧ appliedSetting cc.out .initialWindowSize initialWindowSize = 0 ∧
      cc.fr.readMetaHeaders.map (·.dynTab.allowedMaxSize) = some 4096 ∧
      appliedSetting cc.out .headerTableSize initialHeaderTableSize = 0 := by
  obtain ⟨cc, h⟩ : ∃ cc, unsetTransport.newClientConn false = .ok cc := ⟨_, rfl⟩
  obtain ⟨hflow, hdec, -⟩ := newClientConn_fields h
  refine ⟨cc, h, hflow, ?_, ?_, ?_⟩
  · rw [appliedSetting_newClientConn h (by decide)]
    decide
  · rw [hdec]
    decide
  · rw [appliedSetting_newClientConn h (by decide)]
    decide

end Transport

end Fhttp.Http2
