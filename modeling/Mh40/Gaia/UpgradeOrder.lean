import Mathlib.Tactic.SplitIfs
import Mh40.Gaia.UpgradePlugin

/-!
# Answers of the upgrade plugin

* `Right`: a step sends nothing on a transport that has gone, and its answers are owed. `Sound`: a
  state that is not disconnected has a transport, and one that is locked or owes an answer waits
  for the library.
* `Orderly`: no transport, no failure and no other client of the library gets ahead of a
  confirmation.
* `Good`: the states that orderly runs keep to, one case for each state of the plugin.
* `right_of_orderly`: orderly runs are right and sound throughout.
-/

namespace Mh40.Gaia.UpgradePlugin

open Lib List Option Function

/-! ## What should hold -/

section Spec

variable {T : Type} [DecidableEq T]

/-- Whether the event is a confirmation of the library. -/
def Event.IsCfm : Event T → Prop
  | .upgradeConnectCfm _ | .upgradeDisconnectCfm _ => True
  | _ => False

/-- What a step may do. -/
structure Right (w : World T) (e : Event T) : Prop where
  /-- Nothing is sent on a transport that is known to have disconnected. -/
  reached : w.Enabled e → ∀ a ∈ (w.react e).2, ∀ t, a.transport = some t →
    w.connectedAfter e t = true
  /-- A confirmation answers only what is owed. -/
  owed : w.Enabled e → e.IsCfm → ∀ a ∈ (w.react e).2, ∀ command transport,
    a.answer = some (command, transport) → ∃ t, transport = some t ∧ (command, t) ∈ w.owed
  noPanic : w.Enabled e → .panic ∉ (w.react e).2

/-- What a state should be like. -/
structure Sound (w : World T) : Prop where
  held : w.plugin.state ≠ .disconnected → w.plugin.transport ≠ none
  unlocked : w.plugin.lock ≠ 0 → 0 < w.library.outstanding
  answered : w.library.outstanding = 0 → w.owed = []

/-- The event does not get ahead of a confirmation. -/
def Orderly (w : World T) : Event T → Prop
  | .upgradeConnect _ =>
    w.plugin.state = .disconnected → w.library.connectCfms = [] ∧ w.library.disconnectCfms = 0
  | .upgradeDisconnect t => w.plugin.transport = some t → w.plugin.state ≠ .connecting
  | .transportDisconnect t => w.plugin.transport = some t → w.plugin.state ≠ .disconnecting ∧
    (w.plugin.state = .connecting → w.library.upgradeCtx = some (some .plugin))
  | .otherDisconnect => w.library.upgradeCtx ≠ some (some .plugin)
  | .upgradeDisconnectCfm success => w.plugin.state = .disconnecting → success = true
  | .upgradeDataInd | .bandwidthThrottle _ =>
    ∀ t, w.plugin.transport = some t → w.connected t = true
  | .handleInternal => w.plugin.state = .disconnected → w.internal.head? = some .connectReq →
    ∀ t, w.plugin.roleChangeTransport = some t → w.connected t = true
  | _ => True

instance (w : World T) : ∀ e, Decidable (Orderly w e)
  | .upgradeDataInd | .bandwidthThrottle _ =>
    inferInstanceAs (Decidable (∀ t ∈ w.plugin.transport, _))
  | .handleInternal =>
    inferInstanceAs (Decidable (_ → _ → ∀ t ∈ w.plugin.roleChangeTransport, _))
  | .upgradeConnect _ | .upgradeDisconnect _ | .transportDisconnect _ | .upgradeDisconnectCfm _ |
    .otherDisconnect => by unfold Orderly; infer_instance
  | .transportConnect _ | .upgradeConnectCfm _ | .upgradeInit | .otherConnect |
    .roleChangeStart _ | .roleChangeCompleted .. | .roleChangeCancelled _ => .isTrue trivial

/-! ## Orderly runs -/

/-- The states that orderly runs keep to. A transport that is waited for is connected, and the
confirmations that are outstanding are those of the commands that are owed. -/
inductive Good (w : World T) : Prop
  | disconnected (state : w.plugin.state = .disconnected) (lock : w.plugin.lock = 0)
    (owed : w.owed = [])
    (kept : ∀ t, w.plugin.transport = some t →
      w.connected t = true ∧ w.library.connectCfms = [] ∧ w.library.disconnectCfms = 0)
  | connecting (t : T) (state : w.plugin.state = .connecting)
    (transport : w.plugin.transport = some t) (connected : w.connected t = true)
    (connectCfms : ∃ success, w.library.connectCfms = [success] ∧
      (success = true → w.library.upgradeCtx = some (some .plugin)))
    (disconnectCfms : w.library.disconnectCfms = 0) (owed : w.owed = [(.upgradeConnect, t)])
  | connected (t : T) (state : w.plugin.state = .connected) (lock : w.plugin.lock = 0)
    (transport : w.plugin.transport = some t)
    (connected : w.connected t = true) (connectCfms : w.library.connectCfms = [])
    (taken : w.library.upgradeCtx = some (some .plugin))
    (disconnectCfms : w.library.disconnectCfms = 0) (owed : w.owed = [])
  | disconnecting (t : T) (state : w.plugin.state = .disconnecting)
    (transport : w.plugin.transport = some t)
    (connected : w.connected t = true) (connectCfms : w.library.connectCfms = [])
    (disconnectCfms : w.library.disconnectCfms = 1) (owed : w.owed = [(.upgradeDisconnect, t)])
  | transportDisconnecting (t : T) (state : w.plugin.state = .transportDisconnecting)
    (transport : w.plugin.transport = some t) (disconnectCfms : 0 < w.library.disconnectCfms)
    (owed : w.owed = [])

variable {w w' : World T} {e : Event T} {t : T}

omit [DecidableEq T] in
theorem Good.sound (h : Good w) : Sound w := by
  have hpos : 0 < w.library.disconnectCfms → 0 < w.library.outstanding :=
    fun h => Nat.lt_of_lt_of_le h (Nat.le_add_left _ _)
  cases h with
  | disconnected state lock owed _ =>
    exact ⟨fun h => absurd state h, fun h => absurd lock h, fun _ => owed⟩
  | connecting t state transport _ hcfm _ _ =>
    have hout : 0 < w.library.outstanding := by
      obtain ⟨success, hc, -⟩ := hcfm
      unfold Library.outstanding
      rw [hc, length_singleton]
      omega
    exact ⟨fun _ => by rw [transport]; exact some_ne_none t, fun _ => hout, fun _ => by omega⟩
  | connected t state lock transport _ _ _ _ owed =>
    exact ⟨fun _ => by rw [transport]; exact some_ne_none t, fun h => absurd lock h,
      fun _ => owed⟩
  | disconnecting t state transport _ _ hd _ =>
    have hout := hpos (by omega)
    exact ⟨fun _ => by rw [transport]; exact some_ne_none t, fun _ => hout, fun _ => by omega⟩
  | transportDisconnecting t state transport hd owed =>
    exact ⟨fun _ => by rw [transport]; exact some_ne_none t, fun _ => hpos hd, fun _ => owed⟩

omit [DecidableEq T] in
/-- Only these parts matter, and a transport that connects does no harm. -/
theorem Good.mono (h : Good w) (hstate : w'.plugin.state = w.plugin.state)
    (hlock : w'.plugin.lock = w.plugin.lock) (htransport : w'.plugin.transport = w.plugin.transport)
    (hconnected : ∀ t, w.connected t = true → w'.connected t = true)
    (hc : w'.library.connectCfms = w.library.connectCfms)
    (hd : w'.library.disconnectCfms = w.library.disconnectCfms)
    (htaken : w.library.upgradeCtx = some (some .plugin) →
      w'.library.upgradeCtx = some (some .plugin))
    (howed : w'.owed = w.owed) : Good w' := by
  cases h with
  | disconnected state lock owed kept =>
    refine .disconnected (hstate.trans state) (hlock.trans lock) (howed.trans owed) fun t ht => ?_
    obtain ⟨h1, h2, h3⟩ := kept t (htransport ▸ ht)
    exact ⟨hconnected t h1, hc.trans h2, hd.trans h3⟩
  | connecting t state transport connected h1 h2 owed =>
    obtain ⟨success, h1, taken⟩ := h1
    exact .connecting t (hstate.trans state) (htransport.trans transport) (hconnected t connected)
      ⟨success, hc.trans h1, fun h => htaken (taken h)⟩ (hd.trans h2) (howed.trans owed)
  | connected t state lock transport connected h1 taken h2 owed =>
    exact .connected t (hstate.trans state) (hlock.trans lock) (htransport.trans transport)
      (hconnected t connected) (hc.trans h1) (htaken taken) (hd.trans h2) (howed.trans owed)
  | disconnecting t state transport connected h1 h2 owed =>
    exact .disconnecting t (hstate.trans state) (htransport.trans transport)
      (hconnected t connected) (hc.trans h1) (hd.trans h2) (howed.trans owed)
  | transportDisconnecting t state transport h2 owed =>
    exact .transportDisconnecting t (hstate.trans state) (htransport.trans transport)
      (hd.symm ▸ h2) (howed.trans owed)

omit [DecidableEq T] in
/-- A transport that the plugin waits for, or has kept, is connected. -/
theorem Good.connected_of_state (h : Good w) (hstate : w.plugin.state ≠ .transportDisconnecting)
    (ht : w.plugin.transport = some t) : w.connected t = true := by
  cases h with
  | disconnected _ _ _ kept => exact (kept t ht).1
  | connecting _ _ transport connected | connected _ _ _ transport connected
  | disconnecting _ _ transport connected =>
    obtain rfl := some.inj (ht.symm.trans transport)
    exact connected
  | transportDisconnecting _ state => exact absurd state hstate

/-! ### The library -/

section Library

variable {l : Library}

/-- A request to connect is confirmed, with success when the plugin gets the connection. -/
theorem transportConnect_plugin (l : Library) : ∃ success,
    (l.transportConnect .plugin).connectCfms = l.connectCfms ++ [success] ∧
      (l.transportConnect .plugin).disconnectCfms = l.disconnectCfms ∧
      (success = true → (l.transportConnect .plugin).upgradeCtx = some (some .plugin)) := by
  unfold Library.transportConnect
  rcases l.upgradeCtx with _ | _ | client
  · exact ⟨false, rfl, rfl, nofun⟩
  · exact ⟨true, rfl, rfl, fun _ => rfl⟩
  · exact ⟨false, rfl, rfl, nofun⟩

/-- Another client takes a connection that is free. -/
theorem transportConnect_other (l : Library) :
    (l.transportConnect .other).connectCfms = l.connectCfms ∧
      (l.transportConnect .other).disconnectCfms = l.disconnectCfms ∧
      (l.upgradeCtx = some (some .plugin) →
        (l.transportConnect .other).upgradeCtx = some (some .plugin)) := by
  unfold Library.transportConnect
  rcases l.upgradeCtx with _ | _ | client
  · exact ⟨rfl, rfl, nofun⟩
  · exact ⟨rfl, rfl, nofun⟩
  · exact ⟨rfl, rfl, id⟩

theorem transportDisconnect_of_plugin (h : l.upgradeCtx = some (some .plugin)) :
    l.transportDisconnect =
      { l with upgradeCtx := some none, disconnectCfms := l.disconnectCfms + 1 } := by
  unfold Library.transportDisconnect
  rw [h]

/-- Without a connection of the plugin there is no confirmation for it. -/
theorem transportDisconnect_of_ne (h : l.upgradeCtx ≠ some (some .plugin)) :
    l.transportDisconnect.connectCfms = l.connectCfms ∧
      l.transportDisconnect.disconnectCfms = l.disconnectCfms := by
  unfold Library.transportDisconnect
  split
  · exact absurd ‹_› h
  · exact ⟨rfl, rfl⟩
  · exact ⟨rfl, rfl⟩

theorem disconnectCfms_le (l : Library) :
    l.disconnectCfms ≤ l.transportDisconnect.disconnectCfms := by
  by_cases h : l.upgradeCtx = some (some .plugin)
  · rw [transportDisconnect_of_plugin h]
    exact Nat.le_succ _
  · exact Nat.le_of_eq (transportDisconnect_of_ne h).2.symm

omit [DecidableEq T] in
theorem foldl_call {actions : List (Action T)} (hc : .transportConnectRequest ∉ actions)
    (hd : .transportDisconnectRequest ∉ actions) : actions.foldl Library.call l = l := by
  induction actions with
  | nil => rfl
  | cons a actions ih =>
    rw [mem_cons, not_or] at hc hd
    have hcall : l.call a = l := by
      cases a <;> first | rfl | exact absurd rfl hc.1 | exact absurd rfl hd.1
    rw [foldl_cons, hcall]
    exact ih hc.2 hd.2

end Library

/-! ### The events -/

/-- The events that the connection does not depend on. -/
def Event.IsAside : Event T → Prop
  | .transportConnect _ | .upgradeDataInd | .upgradeInit | .otherConnect | .otherDisconnect |
    .bandwidthThrottle _ | .roleChangeStart _ | .roleChangeCompleted _ _ |
    .roleChangeCancelled _ | .handleInternal => True
  | _ => False

/-- They make no requests, and change only what the notifications depend on. -/
theorem aside_spec (he : e.IsAside) (w : World T) :
    (w.react e).1.state = w.plugin.state ∧ (w.react e).1.lock = w.plugin.lock ∧
      (w.react e).1.transport = w.plugin.transport ∧ .transportConnectRequest ∉ (w.react e).2 ∧
      .transportDisconnectRequest ∉ (w.react e).2 ∧ .panic ∉ (w.react e).2 := by
  cases e with
  | transportConnect _ | upgradeInit | otherConnect | otherDisconnect =>
    exact ⟨rfl, rfl, rfl, not_mem_nil, not_mem_nil, not_mem_nil⟩
  | upgradeDataInd => exact ⟨rfl, rfl, rfl, by simp [World.react, upgradeDataInd],
      by simp [World.react, upgradeDataInd], by simp [World.react, upgradeDataInd]⟩
  | bandwidthThrottle b =>
    simp only [World.react, UpgradePlugin.bandwidthThrottle]
    split_ifs <;> simp
  | roleChangeStart t =>
    simp only [World.react, UpgradePlugin.roleChangeStart]
    split_ifs <;> simp
  | roleChangeCompleted t isPrimary =>
    simp only [World.react, UpgradePlugin.roleChangeCompleted]
    split_ifs <;> simp
  | roleChangeCancelled t =>
    simp only [World.react, UpgradePlugin.roleChangeCancelled]
    split_ifs <;> simp
  | handleInternal =>
    simp only [World.react]
    cases w.internal with
    | nil => simp
    | cons m ms =>
      cases m with
      | connectReq =>
        simp only [handleInternalConnect]
        split_ifs <;> simp
      | disconnectReq =>
        simp only [handleInternalDisconnect]
        split_ifs <;> simp
  | _ => exact he.elim

/-- The library goes on with the plugin as before. -/
theorem library_aside (he : e.IsAside) (hen : w.Enabled e) (ho : Orderly w e) :
    (w.libraryAfter e).connectCfms = w.library.connectCfms ∧
      (w.libraryAfter e).disconnectCfms = w.library.disconnectCfms ∧
      (w.library.upgradeCtx = some (some .plugin) →
        (w.libraryAfter e).upgradeCtx = some (some .plugin)) := by
  obtain ⟨-, -, -, hc, hd, -⟩ := aside_spec he w
  unfold World.libraryAfter
  rw [foldl_call hc hd]
  cases e with
  | upgradeInit => exact ⟨rfl, rfl, fun h => absurd (h.symm.trans hen) nofun⟩
  | otherConnect => exact transportConnect_other w.library
  | otherDisconnect =>
    obtain ⟨h1, h2⟩ := transportDisconnect_of_ne ho
    exact ⟨h1, h2, fun h => absurd h ho⟩
  | transportDisconnect _ | upgradeConnect _ | upgradeDisconnect _ | upgradeConnectCfm _
  | upgradeDisconnectCfm _ => exact he.elim
  | _ => exact ⟨rfl, rfl, id⟩

/-- A step that only asks something of the library, or does nothing. -/
theorem right_of_silent {plugin : Plugin T} {actions : List (Action T)}
    (hreact : w.react e = (plugin, actions))
    (hall : ∀ a ∈ actions, a.transport = none ∧ a.answer = none ∧ a ≠ .panic) : Right w e := by
  refine ⟨fun _ a ha t ht => ?_, fun _ _ a ha command transport hanswer => ?_, fun _ hpanic => ?_⟩
  · exact absurd ((hall a (by rwa [hreact] at ha)).1.symm.trans ht) nofun
  · exact absurd ((hall a (by rwa [hreact] at ha)).2.1.symm.trans hanswer) nofun
  · exact (hall _ (by rwa [hreact] at hpanic)).2.2 rfl

/-- The answer that a confirmation settles. -/
theorem right_of_answer {plugin : Plugin T} {command : Command} {a : Action T}
    (hconnected : w.connectedAfter e t = true) (hreact : w.react e = (plugin, [a]))
    (ha : a.transport = some t) (hanswer : a.answer = some (command, some t))
    (howed : (command, t) ∈ w.owed) : Right w e := by
  have hactions : (w.react e).2 = [a] := by rw [hreact]
  refine ⟨fun _ b hb t' ht' => ?_, fun _ _ b hb command' transport hb' => ?_, fun _ hpanic => ?_⟩
  · obtain rfl := mem_singleton.mp (hactions ▸ hb)
    obtain rfl := some.inj (ha.symm.trans ht')
    exact hconnected
  · obtain rfl := mem_singleton.mp (hactions ▸ hb)
    obtain ⟨rfl, rfl⟩ := Prod.mk.inj (some.inj (hanswer.symm.trans hb'))
    exact ⟨t, rfl, howed⟩
  · obtain rfl := mem_singleton.mp (hactions ▸ hpanic)
    cases ha

section

variable (h : Good w)
include h

theorem Good.aside (he : e.IsAside) (hen : w.Enabled e) (ho : Orderly w e) :
    Good (w.after e) := by
  obtain ⟨hstate, hlock, htransport, -⟩ := aside_spec he w
  obtain ⟨hc, hd, htaken⟩ := library_aside he hen ho
  refine h.mono hstate hlock htransport (fun t ht => ?_) hc hd htaken ?_
  · cases e with
    | transportConnect t' =>
      change Function.update w.connected t' true t = true
      rw [update_apply]
      split_ifs
      · rfl
      · exact ht
    | transportDisconnect _ => exact he.elim
    | _ => exact ht
  · unfold World.after World.owedAfter
    cases e <;> first | rfl | exact he.elim

theorem Good.right_aside (he : e.IsAside) (ho : Orderly w e) :
    Right w e where
  reached _ a ha t ht := by
    cases e with
    | transportConnect _ | upgradeInit | otherConnect | otherDisconnect =>
      exact absurd ha not_mem_nil
    | upgradeDataInd =>
      obtain rfl := mem_singleton.mp ha
      exact ho t ht
    | bandwidthThrottle b =>
      simp only [World.react, UpgradePlugin.bandwidthThrottle] at ha
      split_ifs at ha <;> simp at ha <;> subst ha <;> exact ho t ht
    | roleChangeStart t' | roleChangeCompleted t' _ | roleChangeCancelled t' =>
      simp only [World.react, UpgradePlugin.roleChangeStart, UpgradePlugin.roleChangeCompleted,
        UpgradePlugin.roleChangeCancelled] at ha
      split_ifs at ha <;> simp at ha
      subst ha
      cases ht
    | handleInternal =>
      unfold Orderly at ho
      change w.connected t = true
      simp only [World.react] at ha
      cases hint : w.internal with
      | nil =>
        rw [hint] at ha
        exact absurd ha not_mem_nil
      | cons m ms =>
        rw [hint] at ha ho
        cases m with
        | connectReq =>
          simp only [handleInternalConnect] at ha
          split_ifs at ha with hstate hsome
          · obtain rfl := mem_singleton.mp ha
            exact ho hstate rfl t ht
          · obtain rfl := mem_singleton.mp ha
            cases ht
          · exact absurd ha not_mem_nil
        | disconnectReq =>
          simp only [handleInternalDisconnect] at ha
          split_ifs at ha with hstate
          · obtain rfl := mem_singleton.mp ha
            refine h.connected_of_state ?_ ht
            rw [hstate]
            decide
          · exact absurd ha not_mem_nil
    | _ => exact he.elim
  owed _ hcfm := by
    cases e <;> first | exact hcfm.elim | exact he.elim
  noPanic _ := (aside_spec he w).2.2.2.2.2

/-- A command that is refused at once changes nothing. -/
theorem Good.refused {command : Command} (ht : w.connected t = true)
    (hcommand : (command = .upgradeConnect ∧ e = .upgradeConnect t) ∨
      (command = .upgradeDisconnect ∧ e = .upgradeDisconnect t))
    (hreact : w.react e = (w.plugin, [.sendError (some t) command])) :
    Right w e ∧ Good (w.after e) := by
  have hconnected : w.connectedAfter e = w.connected := by
    rcases hcommand with ⟨-, rfl⟩ | ⟨-, rfl⟩ <;> rfl
  have hnot : ¬ e.IsCfm := by
    rcases hcommand with ⟨-, rfl⟩ | ⟨-, rfl⟩ <;> exact id
  have hlibrary : (w.after e).library = w.library := by
    unfold World.after World.libraryAfter
    rw [hreact]
    rcases hcommand with ⟨-, rfl⟩ | ⟨-, rfl⟩ <;> rfl
  refine ⟨⟨fun _ a ha t' ht' => ?_, fun _ hcfm => absurd hcfm hnot, fun _ => ?_⟩,
    h.mono ?_ ?_ ?_ (fun t' ht' => ?_) (by rw [hlibrary]) (by rw [hlibrary]) (by rw [hlibrary]; exact id)
      ?_⟩
  · rw [hreact] at ha
    obtain rfl := mem_singleton.mp ha
    obtain rfl := some.inj ht'
    rw [hconnected]
    exact ht
  · rw [hreact]
    simp
  · simp only [World.after, hreact]
  · simp only [World.after, hreact]
  · simp only [World.after, hreact]
  · change w.connectedAfter e t' = true
    rw [hconnected]
    exact ht'
  · rcases hcommand with ⟨rfl, rfl⟩ | ⟨rfl, rfl⟩ <;>
      simp [World.after, World.owedAfter, accept, hreact]

/-- A command for a connection. -/
theorem Good.upgradeConnect (ht : w.connected t = true) (ho : Orderly w (.upgradeConnect t)) :
    Right w (.upgradeConnect t) ∧ Good (w.after (.upgradeConnect t)) := by
  by_cases hstate : w.plugin.state = .disconnected
  · obtain ⟨hc, hd⟩ := ho hstate
    have hreact : w.react (.upgradeConnect t) =
        ({ w.plugin with transport := some t }.setState .connecting,
          [.transportConnectRequest]) := by
      simp only [World.react, UpgradePlugin.upgradeConnect, hstate]
    have howed : w.owed = [] := by
      cases h with
      | disconnected _ _ owed => exact owed
      | connecting _ state | connected _ state | disconnecting _ state
      | transportDisconnecting _ state => rw [hstate] at state; cases state
    refine ⟨right_of_silent hreact ?_, ?_⟩
    · simp [Action.transport, Action.answer]
    · obtain ⟨success, hc', hd', htaken⟩ := transportConnect_plugin w.library
      have hlibrary : (w.after (.upgradeConnect t)).library =
          w.library.transportConnect .plugin := by
        simp only [World.after, World.libraryAfter, hreact]
        rfl
      rw [hc, nil_append] at hc'
      refine .connecting t ?_ ?_ ht ⟨success, hlibrary ▸ hc', hlibrary ▸ htaken⟩
        (hlibrary ▸ hd'.trans hd) ?_
      · simp only [World.after, hreact]
        rfl
      · simp only [World.after, hreact]
        rfl
      · simp only [World.after, World.owedAfter, hreact, howed]
        rfl
  · exact h.refused ht (.inl ⟨rfl, rfl⟩) (by simp only [World.react, UpgradePlugin.upgradeConnect])

/-- A command to disconnect. -/
theorem Good.upgradeDisconnect (ht : w.connected t = true) (ho : Orderly w (.upgradeDisconnect t)) :
    Right w (.upgradeDisconnect t) ∧ Good (w.after (.upgradeDisconnect t)) := by
  have hrefused := fun hreact =>
    h.refused (e := .upgradeDisconnect t) ht (.inr ⟨rfl, rfl⟩) hreact
  cases h with
  | disconnected state | disconnecting _ state | transportDisconnecting _ state =>
    exact hrefused (by simp only [World.react, UpgradePlugin.upgradeDisconnect, state])
  | connecting t' state transport =>
    refine hrefused ?_
    have hne : w.plugin.transport ≠ some t := fun heq => ho heq state
    simp only [World.react, UpgradePlugin.upgradeDisconnect, state, if_neg hne]
  | connected t' state _ transport _ hc taken hd owed =>
    by_cases heq : t' = t
    · obtain rfl := heq
      have hreact : w.react (.upgradeDisconnect t') =
          (w.plugin.setState .disconnecting, [.transportDisconnectRequest]) := by
        simp only [World.react, UpgradePlugin.upgradeDisconnect, state, transport, if_true]
      refine ⟨right_of_silent hreact ?_, ?_⟩
      · simp [Action.transport, Action.answer]
      · have hlibrary : (w.after (.upgradeDisconnect t')).library =
            { w.library with upgradeCtx := some none, disconnectCfms := 1 } := by
          simp only [World.after, World.libraryAfter, hreact, foldl_cons, foldl_nil, Library.call,
            transportDisconnect_of_plugin taken, hd]
        refine .disconnecting t' ?_ ?_ ht (by rw [hlibrary]; exact hc) (by rw [hlibrary]) ?_
        · simp only [World.after, hreact]
          rfl
        · simp only [World.after, hreact]
          exact transport
        · simp only [World.after, World.owedAfter, hreact, owed]
          rfl
    · refine hrefused ?_
      have hne : w.plugin.transport ≠ some t := fun h0 =>
        heq (some.inj (transport.symm.trans h0))
      simp only [World.react, UpgradePlugin.upgradeDisconnect, state, if_neg hne]

/-- A transport that disconnects. -/
theorem Good.transportDisconnect (ho : Orderly w (.transportDisconnect t)) :
    Right w (.transportDisconnect t) ∧ Good (w.after (.transportDisconnect t)) := by
  have hother : ∀ t', t' ≠ t →
      (w.after (.transportDisconnect t)).connected t' = w.connected t' := fun t' hne =>
    update_of_ne hne _ _
  have howed : (w.after (.transportDisconnect t)).owed = w.owed.filter fun c => c.2 ≠ t := rfl
  by_cases htransport : w.plugin.transport = some t
  · -- the library is told, and confirms it
    have htold (hstate : w.plugin.state = .connecting ∨ w.plugin.state = .connected)
        (taken : w.library.upgradeCtx = some (some .plugin)) (hall : ∀ c ∈ w.owed, c.2 = t) :
        Right w (.transportDisconnect t) ∧ Good (w.after (.transportDisconnect t)) := by
      have hreact : w.react (.transportDisconnect t) =
          (w.plugin.setState .transportDisconnecting, [.transportDisconnectRequest]) := by
        rcases hstate with state | state <;>
          simp only [World.react, UpgradePlugin.transportDisconnect, htransport, if_true, state]
      have hlibrary : (w.after (.transportDisconnect t)).library =
          w.library.transportDisconnect := by
        simp only [World.after, World.libraryAfter, hreact]
        rfl
      have hplugin : (w.after (.transportDisconnect t)).plugin =
          w.plugin.setState .transportDisconnecting := by
        simp only [World.after, hreact]
      refine ⟨right_of_silent hreact (by simp [Action.transport, Action.answer]),
        .transportDisconnecting t ?_ ?_ ?_ ?_⟩
      · rw [hplugin]
        rfl
      · rw [hplugin]
        exact htransport
      · rw [hlibrary, transportDisconnect_of_plugin taken]
        exact Nat.succ_pos _
      · rw [howed, filter_eq_nil_iff]
        exact fun c hc => by simp [hall c hc]
    cases h with
    | disconnected state lock owed kept =>
      have hreact : w.react (.transportDisconnect t) =
          ({ w.plugin with transport := none }, []) := by
        simp only [World.react, UpgradePlugin.transportDisconnect, htransport, if_true, state]
      refine ⟨right_of_silent hreact nofun, ?_⟩
      simp only [World.after, World.owedAfter, hreact, owed]
      exact .disconnected state lock rfl nofun
    | connecting t' state transport _ _ hd owed =>
      refine htold (.inl state) ((ho htransport).2 state) ?_
      obtain rfl := some.inj (htransport.symm.trans transport)
      rw [owed]
      exact fun c hc => congrArg Prod.snd (mem_singleton.mp hc)
    | connected t' state _ _ _ _ taken hd owed =>
      refine htold (.inr state) taken ?_
      rw [owed]
      exact fun c hc => absurd hc not_mem_nil
    | disconnecting t' state => exact absurd state (ho htransport).1
    | transportDisconnecting t' state transport hd owed =>
      have hreact : w.react (.transportDisconnect t) = (w.plugin, []) := by
        simp only [World.react, UpgradePlugin.transportDisconnect, htransport, if_true, state]
      refine ⟨right_of_silent hreact nofun, ?_⟩
      simp only [World.after, World.libraryAfter, World.owedAfter, hreact, owed]
      exact .transportDisconnecting t' state transport hd rfl
  · -- the transport of someone else
    have hreact : w.react (.transportDisconnect t) = (w.plugin, []) := by
      simp only [World.react, UpgradePlugin.transportDisconnect, if_neg htransport]
    have hplugin : (w.after (.transportDisconnect t)).plugin = w.plugin := by
      simp only [World.after, hreact]
    have hlibrary : (w.after (.transportDisconnect t)).library = w.library := by
      simp only [World.after, World.libraryAfter, hreact]
      rfl
    have hne : ∀ t', w.plugin.transport = some t' → t' ≠ t := fun t' ht' heq =>
      htransport (heq ▸ ht')
    have hfilter : ∀ command t', t' ≠ t →
        [((command, t') : Command × T)].filter (fun c => c.2 ≠ t) = [(command, t')] := by
      intro command t' hne
      simp [hne]
    refine ⟨right_of_silent hreact nofun, ?_⟩
    cases h with
    | disconnected state lock owed kept =>
      refine .disconnected (hplugin ▸ state) (hplugin ▸ lock) (by rw [howed, owed]; rfl) ?_
      intro t' ht'
      rw [hplugin] at ht'
      rw [hother t' (hne t' ht'), hlibrary]
      exact kept t' ht'
    | connecting t' state transport connected hc hd owed =>
      have hne' := hne t' transport
      exact .connecting t' (hplugin ▸ state) (hplugin ▸ transport)
        ((hother t' hne').trans connected) (hlibrary ▸ hc) (hlibrary ▸ hd)
        (by rw [howed, owed]; exact hfilter _ t' hne')
    | connected t' state lock transport connected hc taken hd owed =>
      exact .connected t' (hplugin ▸ state) (hplugin ▸ lock) (hplugin ▸ transport)
        ((hother t' (hne t' transport)).trans connected) (hlibrary ▸ hc) (hlibrary ▸ taken)
        (hlibrary ▸ hd) (by rw [howed, owed]; rfl)
    | disconnecting t' state transport connected hc hd owed =>
      have hne' := hne t' transport
      exact .disconnecting t' (hplugin ▸ state) (hplugin ▸ transport)
        ((hother t' hne').trans connected) (hlibrary ▸ hc) (hlibrary ▸ hd)
        (by rw [howed, owed]; exact hfilter _ t' hne')
    | transportDisconnecting t' state transport hd owed =>
      exact .transportDisconnecting t' (hplugin ▸ state) (hplugin ▸ transport) (hlibrary ▸ hd)
        (by rw [howed, owed]; rfl)

end

theorem settle_sendResponse (command : Command) (t : T) :
    settle [(command, t)] [.sendResponse (some t) command] = [] := by
  simp [settle, Action.answer]

theorem settle_sendError (command : Command) (t : T) :
    settle [(command, t)] [.sendError (some t) command] = [] := by
  simp [settle, Action.answer]

/-- A confirmation of a connection. -/
theorem Good.upgradeConnectCfm (h : Good w) {success : Bool}
    (hmem : success ∈ w.library.connectCfms) :
    Right w (.upgradeConnectCfm success) ∧ Good (w.after (.upgradeConnectCfm success)) := by
  cases h with
  | disconnected state lock owed kept =>
    have hreact : w.react (.upgradeConnectCfm success) =
        (w.plugin, if success then [.transportDisconnectRequest] else []) := by
      simp only [World.react, UpgradePlugin.upgradeConnectCfm, state]
    refine ⟨right_of_silent hreact ?_, ?_⟩
    · cases success <;> simp [Action.transport, Action.answer]
    · simp only [World.after, World.owedAfter, hreact, owed]
      refine .disconnected state lock (by cases success <;> rfl) fun t ht => ?_
      exact absurd hmem ((kept t ht).2.1 ▸ not_mem_nil)
  | connecting t state transport connected hcfm hd owed =>
    obtain ⟨success', hc, taken⟩ := hcfm
    obtain rfl : success = success' := mem_singleton.mp (hc ▸ hmem)
    cases success with
    | true =>
      have hreact : w.react (.upgradeConnectCfm true) =
          (w.plugin.setState .connected, [.sendResponse (some t) .upgradeConnect]) := by
        simp only [World.react, UpgradePlugin.upgradeConnectCfm, state, transport, if_true]
      refine ⟨right_of_answer connected hreact rfl rfl (by rw [owed]; exact .head _), ?_⟩
      simp only [World.after, World.libraryAfter, World.owedAfter, hreact, hc, owed]
      exact .connected t rfl rfl transport connected rfl (taken rfl) hd (settle_sendResponse _ t)
    | false =>
      have hreact : w.react (.upgradeConnectCfm false) =
          ({ w.plugin.setState .disconnected with transport := none },
            [.sendError (some t) .upgradeConnect]) := by
        simp only [World.react, UpgradePlugin.upgradeConnectCfm, state, transport,
          Bool.false_eq_true, if_false]
      refine ⟨right_of_answer connected hreact rfl rfl (by rw [owed]; exact .head _), ?_⟩
      simp only [World.after, World.owedAfter, hreact, owed]
      exact .disconnected rfl rfl (settle_sendError _ t) nofun
  | connected _ _ _ _ _ hc | disconnecting _ _ _ _ hc => exact absurd hmem (hc ▸ not_mem_nil)
  | transportDisconnecting t state transport hd owed =>
    have hreact : w.react (.upgradeConnectCfm success) =
        (w.plugin, if success then [.transportDisconnectRequest] else []) := by
      simp only [World.react, UpgradePlugin.upgradeConnectCfm, state]
    refine ⟨right_of_silent hreact ?_, ?_⟩
    · cases success <;> simp [Action.transport, Action.answer]
    · simp only [World.after, World.libraryAfter, World.owedAfter, hreact, owed]
      refine .transportDisconnecting t state transport ?_ (by cases success <;> rfl)
      cases success with
      | true => exact Nat.lt_of_lt_of_le hd (disconnectCfms_le { w.library with
          connectCfms := w.library.connectCfms.erase true })
      | false => exact hd

/-- A confirmation that a connection has ended. -/
theorem Good.upgradeDisconnectCfm (h : Good w) {success : Bool}
    (hpos : 0 < w.library.disconnectCfms) (ho : Orderly w (.upgradeDisconnectCfm success)) :
    Right w (.upgradeDisconnectCfm success) ∧ Good (w.after (.upgradeDisconnectCfm success)) := by
  cases h with
  | disconnected state lock owed kept =>
    have hnone : w.plugin.transport = none := by
      cases ht : w.plugin.transport with
      | none => rfl
      | some t =>
        have := (kept t ht).2.2
        omega
    have hreact : w.react (.upgradeDisconnectCfm success) = (w.plugin, []) := by
      simp only [World.react, UpgradePlugin.upgradeDisconnectCfm, state, hnone,
        isSome_none, Bool.false_eq_true, if_false]
    refine ⟨right_of_silent hreact nofun, ?_⟩
    simp only [World.after, World.owedAfter, hreact, owed]
    exact .disconnected state lock rfl fun t ht => absurd (hnone.symm.trans ht) nofun
  | connecting _ _ _ _ _ hd | connected _ _ _ _ _ _ _ hd => omega
  | disconnecting t state transport connected hc hd owed =>
    obtain rfl : success = true := ho state
    have hreact : w.react (.upgradeDisconnectCfm true) =
        (if w.plugin.throttled then w.plugin.setState .disconnected
          else { w.plugin.setState .disconnected with transport := none },
          [.sendResponse (some t) .upgradeDisconnect]) := by
      simp only [World.react, UpgradePlugin.upgradeDisconnectCfm, state, transport,
        isNone_some, Bool.false_eq_true, if_false, if_true]
      rfl
    refine ⟨right_of_answer connected hreact rfl rfl (by rw [owed]; exact .head _), ?_⟩
    simp only [World.after, World.libraryAfter, World.owedAfter, hreact, hd, owed]
    -- only a plugin that is throttled keeps its transport
    split_ifs
    · refine .disconnected rfl rfl (settle_sendResponse _ t) fun t' ht' => ?_
      obtain rfl := some.inj (transport.symm.trans ht')
      exact ⟨connected, hc, rfl⟩
    · exact .disconnected rfl rfl (settle_sendResponse _ t) nofun
  | transportDisconnecting t state transport hd owed =>
    have hreact : w.react (.upgradeDisconnectCfm success) =
        ({ w.plugin.setState .disconnected with transport := none }, []) := by
      simp only [World.react, UpgradePlugin.upgradeDisconnectCfm, state, transport,
        isNone_some, Bool.false_eq_true, if_false]
    refine ⟨right_of_silent hreact nofun, ?_⟩
    simp only [World.after, World.owedAfter, hreact, owed]
    exact .disconnected rfl rfl rfl nofun

/-- **A step.** -/
theorem Good.step (h : Good w) (he : w.Enabled e) (ho : Orderly w e) :
    Right w e ∧ Good (w.after e) := by
  cases e with
  | transportDisconnect t => exact h.transportDisconnect ho
  | upgradeConnect t => exact h.upgradeConnect he ho
  | upgradeDisconnect t => exact h.upgradeDisconnect he ho
  | upgradeConnectCfm success => exact h.upgradeConnectCfm he
  | upgradeDisconnectCfm success => exact h.upgradeDisconnectCfm he ho
  | _ => exact ⟨h.right_aside trivial ho, h.aside trivial he ho⟩

theorem right_of_not_enabled (he : ¬ w.Enabled e) : Right w e :=
  ⟨fun h => absurd h he, fun h => absurd h he, fun h => absurd h he⟩

/-- **Orderly runs.** Nothing is sent on a transport that has gone, and each command that is
accepted is answered once, on its transport; and wherever the plugin is locked, or owes an answer,
a confirmation is outstanding. -/
theorem right_of_orderly (events : List (Event T))
    (ho : Meets World.step Orderly World.init events) :
    Meets World.step Right World.init events ∧
      Throughout World.step Sound World.init events := by
  have hstep : ∀ (w : World T) e w', Good w → Orderly w e → w.step e = some w' → Good w' := by
    intro w e w' h ho hw'
    unfold World.step at hw'
    split_ifs at hw' with he
    obtain rfl := Option.some.inj hw'
    exact (h.step he ho).2
  have hinit : Good (World.init : World T) :=
    .disconnected rfl rfl rfl fun t ht => by cases ht
  constructor
  · refine meets_of_meets (fun w e h ho => ⟨?_, fun w' => hstep w e w' h ho⟩) hinit ho
    by_cases he : w.Enabled e
    · exact (h.step he ho).1
    · exact right_of_not_enabled he
  · intro ks w hks hw
    exact (invariant_of_meets hstep hinit (ho.of_prefix hks) hw).sound

end Spec

/-- A connection that is ended in good order, and one whose transport disconnects while it is made;
then another client has the library, and the plugin is refused. -/
def goodOrder : List (Event ℕ) :=
  [.upgradeInit, .transportConnect 0, .transportConnect 1, .upgradeConnect 0, .upgradeConnect 1,
    .upgradeConnectCfm true, .upgradeDisconnect 0, .upgradeDisconnectCfm true, .upgradeConnect 1,
    .transportDisconnect 1, .upgradeConnectCfm true, .upgradeDisconnectCfm true, .otherConnect,
    .upgradeConnect 0, .upgradeConnectCfm false, .transportDisconnect 0]

theorem right_of_orderly_goodOrder :
    Meets World.step Right World.init goodOrder ∧ Throughout World.step Sound World.init goodOrder :=
  right_of_orderly goodOrder (by decide +kernel)

/-- A transport that disconnects while it is waited for is answered after that; and when the library
refuses a connection whose transport disconnects, the plugin stays locked. -/
theorem not_right_and_sound :
    (∃ events w, run World.step (World.init : World ℕ) events = some w ∧
      ¬ Meets World.step Right World.init events) ∧
    ∃ events w, run World.step (World.init : World ℕ) events = some w ∧ ¬ Sound w := by
  constructor
  · refine ⟨[.upgradeInit, .transportConnect 0, .upgradeConnect 0, .upgradeConnectCfm true,
      .upgradeDisconnect 0, .transportDisconnect 0, .upgradeDisconnectCfm true], _, rfl,
      fun h => ?_⟩
    have hlast := h.2.2.2.2.2.2.1.reached (by decide) (.sendResponse (some 0) .upgradeDisconnect)
      (by decide) 0 rfl
    exact absurd hlast (by decide)
  · refine ⟨[.upgradeInit, .otherConnect, .transportConnect 0, .upgradeConnect 0,
      .transportDisconnect 0, .upgradeConnectCfm false], _, rfl, fun h => ?_⟩
    exact absurd (h.unlocked (by decide)) (by decide)

end Mh40.Gaia.UpgradePlugin
