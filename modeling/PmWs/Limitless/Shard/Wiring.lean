import PmWs.Limitless.Shard.Commands

/-!
# Which session carries which market

An abstract shard: the sessions in its roles, the set version each was dialled
at and the one its wire has, and the session each member of the set is
subscribed from. Frames and losses do not move it. Everything else a shard does
is a sequence of the moves below.
-/

open MachineInt Tables

namespace PmWs

/-- A connection, as far as the set is concerned. -/
structure Wiring.Session where
  generation : Nat
  markets : List String
  version : Nat
  established : Bool
  deriving DecidableEq, Repr

/-- One role: its session, the version being dialled and the version the wire has. -/
structure Wiring.Line where
  session : Option Wiring.Session
  dialling : Option Nat
  wire : Nat

/-- One member of the set: the session it is subscribed from, and the version it was installed at. -/
structure Wiring.Member where
  desired : Bool
  source : Option Nat
  installed : Nat

structure Wiring where
  lines : Slot → Option Wiring.Line
  members : String → Option Wiring.Member
  wanted : List String
  version : Nat
  next : Nat

namespace Wiring

def Session.ready (self : Session) : Session := { self with established := true }

/-- The session was dialled with this incarnation of the market in its set. -/
def Session.claims (self : Session) (slug : String) (member : Member) : Bool :=
  self.markets.contains slug && member.installed ≤ self.version

def Line.idle (self : Line) : Line := { self with session := none, dialling := none }

def Line.vacant : Line := ⟨none, none, 0⟩

/-! ## Moves -/

def update (self : Wiring) (slot : Slot) (f : Line → Line) : Wiring :=
  { self with lines := fun x => if x = slot then (self.lines x).map f else self.lines x }

def mapMembers (self : Wiring) (f : String → Member → Member) : Wiring :=
  { self with members := fun slug => (self.members slug).map (f slug) }

/-- Subscribes every member a session claims from it. -/
def carry (self : Wiring) (session : Session) : Wiring :=
  self.mapMembers fun slug member =>
    if session.claims slug member then { member with source := some session.generation } else member

/-- Forgets the members that are no longer wanted. -/
def sweep (self : Wiring) : Wiring := { self with members := fun slug => (self.members slug).filter (·.desired) }

/-- Leaves every member without a session. -/
def release (self : Wiring) : Wiring := self.mapMembers fun _ member => { member with source := none }

def spawn (self : Wiring) (slot : Slot) : Wiring :=
  { self.update slot fun line =>
      { line with
        session := some ⟨self.next, self.wanted, self.version, false⟩, dialling := some self.version } with
    next := saturatingAdd self.next 1 }

/-- Only the publishing role's session has members subscribed from it. -/
def carryOn (self : Wiring) (session : Session) : Slot → Wiring
  | .primary => self.carry session
  | .standby _ => self

def leave (self : Wiring) : Slot → Wiring
  | .primary => self.sweep.release
  | .standby _ => self

/-- A dial came through. -/
def settle (self : Wiring) (slot : Slot) (session : Session) (version : Nat) : Wiring :=
  (self.carryOn session slot).update slot fun _ => ⟨some session.ready, none, version⟩

/-- The session of a role is gone. -/
def drop (self : Wiring) (slot : Slot) : Wiring := (self.leave slot).update slot Line.idle

/-- A standby's session takes the publishing role. -/
def take (self : Wiring) (index : Nat) (session : Session) (wire : Nat) : Wiring :=
  ((self.update .primary fun _ => ⟨some session, none, wire⟩).carry session).update (.standby index) fun _ => .vacant

/-- The session has the set as it is now, with every member at its incarnation. -/
def Carries (self : Wiring) (session : Session) : Prop :=
  session.markets = self.wanted ∧
    ∀ slug member, self.members slug = some member → member.desired = true → member.installed ≤ session.version

/-- A session is dialled in a role that has none. -/
inductive Dial (w : Wiring) (slot : Slot) : Wiring → Prop
  | dial (line : Line) (found : w.lines slot = some line) (free : line.session = none) : Dial w slot (w.spawn slot)

/-- Everything else that moves the wiring. -/
inductive Move (w : Wiring) : Wiring → Prop
  | confirm (slot : Slot) (line : Line) (session : Session) (found : w.lines slot = some line)
      (runs : line.session = some session) (settled : line.dialling = none) :
      Move w (w.update slot fun line => { line with session := some session.ready })
  | settle (slot : Slot) (line : Line) (session : Session) (version : Nat) (found : w.lines slot = some line)
      (runs : line.session = some session) (dialling : line.dialling = some version) :
      Move w (w.settle slot session version)
  | drop (slot : Slot) : Move w (w.drop slot)
  | take (index : Nat) (primary line : Line) (session : Session) (role : w.lines .primary = some primary)
      (free : primary.session = none) (found : w.lines (.standby index) = some line)
      (runs : line.session = some session) :
      Move w (w.take index session line.wire)
  | wire (slot : Slot) (line : Line) (session : Session) (found : w.lines slot = some line)
      (runs : line.session = some session) (established : session.established = true) (carries : w.Carries session) :
      Move w (w.update slot fun line => { line with wire := w.version })
  | shed : Move w { w with lines := fun slot => (w.lines slot).map Line.idle, members := fun _ => none }
  | install (slug : String) (wanted : List String) :
      Move w
        { w with
          members := fun k => if k = slug then some ⟨true, none, saturatingAdd w.version 1⟩ else w.members k
          wanted, version := saturatingAdd w.version 1 }
  | unwant (slug : String) (wanted : List String) :
      Move w
        { w with
          members := fun k => if k = slug then (w.members k).map ({ · with desired := false }) else w.members k
          wanted, version := saturatingAdd w.version 1 }
  | close (slug : String) : Move w { w with members := fun k => if k = slug then none else w.members k }

abbrev Moves : Wiring → Wiring → Prop := Relation.ReflTransGen Move

variable {w w' : Wiring} {slot : Slot} {line : Line} {session : Session} {slug : String} {x : Slot} {f : Line → Line}
  {member : Member} {index : Nat}

@[simp] theorem mapMembers_members (w : Wiring) (f : String → Member → Member) (slug : String) :
    (w.mapMembers f).members slug = (w.members slug).map (f slug) := rfl

theorem mapMembers_id (w : Wiring) : (w.mapMembers fun _ member => member) = w := by
  simp [mapMembers]

theorem update_congr {g : Line → Line} (h : ∀ line, w.lines slot = some line → f line = g line) :
    w.update slot f = w.update slot g := by
  simp only [update, mk.injEq, and_self, and_true]
  funext x
  split
  · rename_i heq
    cases hline : w.lines x with
    | none => rfl
    | some line => rw [Option.map_some, Option.map_some, h line (heq ▸ hline)]
  · rfl

@[simp] theorem update_update (w : Wiring) (slot : Slot) (f g : Line → Line) :
    (w.update slot f).update slot g = w.update slot (g ∘ f) := by
  simp only [update, mk.injEq, and_self, and_true]
  funext x
  split <;> simp

theorem leave_update (w : Wiring) (slot slot' : Slot) (f : Line → Line) :
    (w.update slot f).leave slot' = (w.leave slot').update slot f := by
  cases slot' <;> rfl

theorem carryOn_update (w : Wiring) (session : Session) (slot slot' : Slot) (f : Line → Line) :
    (w.update slot f).carryOn session slot' = (w.carryOn session slot').update slot f := by
  cases slot' <;> rfl

theorem carryOn_ready (w : Wiring) (session : Session) (slot : Slot) :
    w.carryOn session.ready slot = w.carryOn session slot := by
  cases slot <;> rfl

theorem release_carry (w : Wiring) (session : Session) : w.release.carry session =
    w.mapMembers fun slug member =>
      if session.claims slug member then { member with source := some session.generation }
      else { member with source := none } := by
  simp only [carry, release, mapMembers, mk.injEq, Option.map_map, true_and, and_true]
  funext slug
  refine congrArg (Option.map · (w.members slug)) (funext fun member => ?_)
  have hclaims : session.claims slug { member with source := none } = session.claims slug member := rfl
  simp only [Function.comp, hclaims]

theorem lines_update (h : (w.update slot f).lines x = some line) :
    (x = slot ∧ ∃ old, w.lines slot = some old ∧ line = f old) ∨ (x ≠ slot ∧ w.lines x = some line) := by
  simp only [update] at h
  split at h
  · rename_i heq
    obtain ⟨old, hold, rfl⟩ := Option.map_eq_some_iff.1 h
    exact .inl ⟨heq, old, heq ▸ hold, rfl⟩
  · rename_i hne
    exact .inr ⟨hne, h⟩

theorem Dial.version (h : Dial w slot w') : w'.version = w.version := by
  obtain ⟨line, hline, hfree⟩ := h
  rfl

theorem Dial.next (h : Dial w slot w') : w'.next = saturatingAdd w.next 1 := by
  obtain ⟨line, hline, hfree⟩ := h
  rfl

/-- The role had no session, and now has one of the next generation over the set as it is. -/
theorem Dial.dialled (h : Dial w slot w') : (w.lines slot).bind (·.session) = none ∧
    (w'.lines slot).bind (·.session) = some ⟨w.next, w.wanted, w.version, false⟩ := by
  obtain ⟨line, hline, hfree⟩ := h
  simp [spawn, update, hline, hfree]

/-! ## Lines follow the set -/

/-- A line is behind the set, or its session has the set as it is now. -/
structure Line.Follows (w : Wiring) (line : Line) : Prop where
  wire_le : line.wire ≤ w.version
  session_le : ∀ session, line.session = some session → session.version ≤ w.version
  current : ∀ session, line.session = some session → session.version = w.version → session.markets = w.wanted
  dialling : ∀ session version, line.session = some session → line.dialling = some version →
    version = session.version ∧ line.wire ≤ session.version
  settled : ∀ session, line.session = some session → session.established = true → line.dialling = none
  carries : ∀ session, line.session = some session → line.dialling = none → line.wire = w.version → w.Carries session

structure Current (w : Wiring) : Prop where
  lines : ∀ slot line, w.lines slot = some line → line.Follows w
  installed_le : ∀ slug member, w.members slug = some member → member.installed ≤ w.version

/-- A line without a session follows any set its wire is not ahead of. -/
theorem Line.Follows.of_none (hnone : line.session = none) (hle : line.wire ≤ w.version) : line.Follows w := by
  refine ⟨hle, ?_, ?_, ?_, ?_, ?_⟩ <;> simp [hnone]

/-- The set of the same version, with some of its members forgotten. -/
theorem Line.Follows.shrink (h : line.Follows w) (hwanted : w'.wanted = w.wanted) (hversion : w'.version = w.version)
    (hmembers : ∀ slug member', w'.members slug = some member' → member'.desired = true →
      ∃ member, w.members slug = some member ∧ member.desired = true ∧ member.installed = member'.installed) :
    line.Follows w' where
  wire_le := hversion ▸ h.wire_le
  session_le c hc := hversion ▸ h.session_le c hc
  current c hc hv := hwanted ▸ h.current c hc (hv.trans hversion)
  dialling := h.dialling
  settled := h.settled
  carries c hc hd hw := by
    obtain ⟨hmarkets, hinstalled⟩ := h.carries c hc hd (hw.trans hversion)
    refine ⟨hmarkets.trans hwanted.symm, fun slug member' hm' hdesired => ?_⟩
    obtain ⟨member, hm, hd, heq⟩ := hmembers slug member' hm' hdesired
    exact heq ▸ hinstalled slug member hm hd

/-- A new version of the set leaves every line behind. -/
theorem Line.Follows.bump (h : line.Follows w) (hlt : w.version < w'.version) : line.Follows w' where
  wire_le := h.wire_le.trans hlt.le
  session_le c hc := (h.session_le c hc).trans hlt.le
  current c hc hv := absurd (h.session_le c hc) (by omega)
  dialling := h.dialling
  settled := h.settled
  carries c hc hd hw := absurd h.wire_le (by omega)

/-- A session that is at the set's version carries it. -/
theorem Current.carries (h : w.Current) (hfollows : line.Follows w) (hs : line.session = some session)
    (hv : session.version = w.version) : w.Carries session :=
  ⟨hfollows.current session hs hv, fun slug member hm _ => hv ▸ h.installed_le slug member hm⟩

/-- The sessions of one line change and the set stays. -/
theorem Current.update (h : w.Current)
    (hf : ∀ line, w.lines slot = some line → line.Follows w → (f line).Follows w) : (w.update slot f).Current where
  lines x line hline := by
    have hsame : line.Follows w := by
      rcases lines_update hline with ⟨rfl, old, hold, rfl⟩ | ⟨-, hold⟩
      · exact hf old hold (h.lines x old hold)
      · exact h.lines x line hold
    exact hsame.shrink rfl rfl fun slug member hm hd => ⟨member, hm, hd, rfl⟩
  installed_le := h.installed_le

/-- Members are subscribed anew or forgotten, and the set stays. -/
theorem Current.members (h : w.Current) (hlines : w'.lines = w.lines) (hwanted : w'.wanted = w.wanted)
    (hversion : w'.version = w.version)
    (hmembers : ∀ slug member', w'.members slug = some member' →
      ∃ member, w.members slug = some member ∧ member'.desired = member.desired ∧ member'.installed = member.installed) :
    w'.Current where
  lines slot line hline := by
    refine (h.lines slot line (hlines ▸ hline)).shrink hwanted hversion fun slug member' hm' hd => ?_
    obtain ⟨member, hm, hdesired, heq⟩ := hmembers slug member' hm'
    exact ⟨member, hm, hdesired ▸ hd, heq.symm⟩
  installed_le slug member' hm' := by
    obtain ⟨member, hm, -, heq⟩ := hmembers slug member' hm'
    rw [heq, hversion]
    exact h.installed_le slug member hm

theorem Current.carry (h : w.Current) (session : Session) : (w.carry session).Current := by
  refine h.members rfl rfl rfl fun slug member' hm' => ?_
  obtain ⟨member, hm, rfl⟩ := Option.map_eq_some_iff.1 hm'
  exact ⟨member, hm, by dsimp only; split <;> exact ⟨rfl, rfl⟩⟩

theorem Current.sweep (h : w.Current) : w.sweep.Current := by
  refine h.members rfl rfl rfl fun slug member hm => ?_
  exact ⟨member, (Option.filter_eq_some_iff.1 hm).1, rfl, rfl⟩

theorem Current.release (h : w.Current) : w.release.Current := by
  refine h.members rfl rfl rfl fun slug member' hm' => ?_
  obtain ⟨member, hm, rfl⟩ := Option.map_eq_some_iff.1 hm'
  exact ⟨member, hm, rfl, rfl⟩

theorem Current.carryOn (h : w.Current) (session : Session) (slot : Slot) : (w.carryOn session slot).Current := by
  cases slot with
  | primary => exact h.carry session
  | standby index => exact h

theorem Current.leave (h : w.Current) (slot : Slot) : (w.leave slot).Current := by
  cases slot with
  | primary => exact h.sweep.release
  | standby index => exact h

/-- The version moves by one, and only one member is new or changed. -/
theorem Current.bump (h : w.Current) (hlines : w'.lines = w.lines) (hlt : w.version < w'.version)
    (hmembers : ∀ slug member', w'.members slug = some member' →
      member'.installed = w'.version ∨ ∃ member, w.members slug = some member ∧ member'.installed = member.installed) :
    w'.Current where
  lines slot line hline := (h.lines slot line (hlines ▸ hline)).bump hlt
  installed_le slug member' hm' := by
    rcases hmembers slug member' hm' with heq | ⟨member, hm, heq⟩
    · exact heq.le
    · exact heq ▸ (h.installed_le slug member hm).trans hlt.le

theorem Current.dial (h : w.Current) (hdial : Dial w slot w') : w'.Current := by
  obtain ⟨line, hline, hfree⟩ := hdial
  have hupdated : (w.update slot fun line =>
      { line with
        session := some ⟨w.next, w.wanted, w.version, false⟩, dialling := some w.version }).Current := by
    refine h.update fun line _ hf => ?_
    refine ⟨hf.wire_le, ?_, ?_, ?_, ?_, ?_⟩ <;> simp
    exact hf.wire_le
  exact hupdated.members rfl rfl rfl fun slug member hm => ⟨member, hm, rfl, rfl⟩

theorem Current.settle (h : w.Current) {version : Nat} (hline : w.lines slot = some line)
    (hs : line.session = some session) (hdialling : line.dialling = some version) :
    (w.settle slot session version).Current := by
  have hcarried := h.carryOn session slot
  refine hcarried.update fun old hold hf => ?_
  have hsame : (w.carryOn session slot).lines = w.lines := by cases slot <;> rfl
  obtain rfl := Option.some.inj (hline.symm.trans (hsame ▸ hold))
  obtain ⟨rfl, -⟩ := hf.dialling session version hs hdialling
  refine ⟨hf.session_le session hs, ?_, ?_, ?_, ?_, ?_⟩ <;> simp [Session.ready]
  · exact hf.session_le session hs
  · exact hf.current session hs
  · intro hv
    obtain ⟨hmarkets, hinstalled⟩ := hcarried.carries hf hs hv
    exact ⟨hmarkets, hinstalled⟩

theorem Current.drop (h : w.Current) (slot : Slot) : (w.drop slot).Current :=
  (h.leave slot).update fun _ _ hf => .of_none rfl hf.wire_le

/-- The wire of the role a session leaves is not ahead of the version it was dialled at. -/
theorem Current.take (h : w.Current) (hline : w.lines (.standby index) = some line)
    (hs : line.session = some session) : (w.take index session line.wire).Current := by
  have hf := h.lines _ _ hline
  have hmoved : (w.update .primary fun _ => ⟨some session, none, line.wire⟩).Current := by
    refine h.update fun _ _ _ => ?_
    refine ⟨hf.wire_le, ?_, ?_, ?_, ?_, ?_⟩ <;> simp
    · exact hf.session_le session hs
    · exact hf.current session hs
    · intro hwire
      cases hd : line.dialling with
      | none => exact hf.carries session hs hd hwire
      | some version =>
        have hle := (hf.dialling session version hs hd).2
        have hversion := hf.session_le session hs
        exact h.carries hf hs (by omega)
  exact (hmoved.carry session).update fun _ _ _ => .of_none rfl (Nat.zero_le _)

theorem Current.move (h : w.version < u64Max → w.Current) (hmove : Move w w') (hfits : w'.version < u64Max) :
    w'.Current := by
  cases hmove with
  | confirm slot line c hline hc hdialling =>
    refine (h hfits).update fun old hold hf => ?_
    obtain rfl := Option.some.inj (hline.symm.trans hold)
    refine ⟨hf.wire_le, ?_, ?_, ?_, ?_, ?_⟩ <;> simp [Session.ready, hdialling]
    · exact hf.session_le c hc
    · exact hf.current c hc
    · exact fun hwire => hf.carries c hc hdialling hwire
  | settle slot line c version hline hc hdialling =>
    have hversion : (w.settle slot c version).version = w.version := by cases slot <;> rfl
    exact (h (hversion ▸ hfits)).settle hline hc hdialling
  | drop slot =>
    have hversion : (w.drop slot).version = w.version := by cases slot <;> rfl
    exact (h (hversion ▸ hfits)).drop slot
  | take index primary line c hrole hfree hline hc => exact (h hfits).take hline hc
  | wire slot line c hline hc he hcarries =>
    refine (h hfits).update fun old hold hf => ?_
    obtain rfl := Option.some.inj (hline.symm.trans hold)
    refine ⟨Nat.le_refl _, hf.session_le, hf.current, ?_, hf.settled, ?_⟩
    · intro _ _ hs hdialling
      rw [hc] at hs
      cases hs
      simp [hf.settled c hc he] at hdialling
    · intro _ hs _ _
      rw [hc] at hs
      cases hs
      exact hcarries
  | shed =>
    refine ⟨fun slot line hline => ?_, fun _ _ hm => by simp at hm⟩
    obtain ⟨old, hold, rfl⟩ := Option.map_eq_some_iff.1 hline
    exact .of_none rfl ((h hfits).lines slot old hold).wire_le
  | install slug wanted =>
    simp only [saturatingAdd] at hfits
    refine (h (by omega)).bump rfl (by simp only [saturatingAdd]; omega) fun k member hm => ?_
    dsimp only at hm
    split at hm
    · exact .inl (by rw [← Option.some.inj hm])
    · exact .inr ⟨member, hm, rfl⟩
  | unwant slug wanted =>
    simp only [saturatingAdd] at hfits
    refine (h (by omega)).bump rfl (by simp only [saturatingAdd]; omega) fun k member hm => ?_
    dsimp only at hm
    split at hm
    · obtain ⟨old, hold, rfl⟩ := Option.map_eq_some_iff.1 hm
      exact .inr ⟨old, hold, rfl⟩
    · exact .inr ⟨member, hm, rfl⟩
  | close slug =>
    refine (h hfits).members rfl rfl rfl fun k member hm => ?_
    dsimp only at hm
    split at hm
    · cases hm
    · exact ⟨member, hm, rfl, rfl⟩

theorem Current.moves (h : w.version < u64Max → w.Current) (hmoves : Moves w w') (hfits : w'.version < u64Max) :
    w'.Current := by
  revert hfits
  induction hmoves with
  | refl => exact h
  | tail _ hmove ih => exact .move ih hmove

/-! ## Following the set -/

/-- An established session of the role has the set as it is now. -/
def Reconciled (w : Wiring) (slot : Slot) : Prop := ∀ line session, w.lines slot = some line →
  line.session = some session → session.established = true → w.Carries session

/-- What following the set comes to in one role: it counts as current, it is found current, or its session is dropped. -/
inductive Reconcile (w : Wiring) (slot : Slot) : Wiring → Prop
  | keep (current : ∀ line session, w.lines slot = some line → line.session = some session →
      session.established = true → w.version = line.wire ∨ line.dialling.isSome = true) : Reconcile w slot w
  | wire (line : Line) (session : Session) (found : w.lines slot = some line) (runs : line.session = some session)
      (established : session.established = true) (carries : w.Carries session) :
      Reconcile w slot (w.update slot fun line => { line with wire := w.version })
  | drop : Reconcile w slot (w.drop slot)

theorem Reconcile.moves (h : Reconcile w slot w') : Moves w w' := by
  cases h with
  | keep => exact .refl
  | wire line session found runs established carries =>
    exact .single (.wire slot line session found runs established carries)
  | drop => exact .single (.drop slot)

theorem Reconcile.version (h : Reconcile w slot w') : w'.version = w.version := by
  cases h with
  | keep | wire => rfl
  | drop => cases slot <;> rfl

/-- The version a wire counts as having may stand for a comparison with the set. -/
theorem Reconcile.reconciled (h : Reconcile w slot w') (hw : w.Current) : w'.Reconciled slot := by
  cases h with
  | keep hcurrent =>
    intro line session hline hs he
    have hf := hw.lines slot line hline
    have hsettled := hf.settled session hs he
    rcases hcurrent line session hline hs he with hwire | hdialling
    · exact hf.carries session hs hsettled hwire.symm
    · simp [hsettled] at hdialling
  | wire old session hold hs he hcarries =>
    intro line session' hline hs' _
    rcases lines_update hline with ⟨-, old', hold', rfl⟩ | ⟨hne, -⟩
    · obtain rfl := Option.some.inj (hold.symm.trans hold')
      obtain rfl := Option.some.inj (hs.symm.trans hs')
      exact hcarries
    · exact absurd rfl hne
  | drop =>
    intro line session hline hs
    rcases lines_update hline with ⟨-, old, -, rfl⟩ | ⟨hne, -⟩
    · cases hs
    · exact absurd rfl hne

/-- Following the set in one role leaves the others as they were. -/
theorem Reconcile.elsewhere (h : Reconcile w slot w') (hne : x ≠ slot) (hx : w.Reconciled x) : w'.Reconciled x := by
  cases h with
  | keep => exact hx
  | wire old session hold hs he hcarries =>
    intro line session' hline hs' he'
    rcases lines_update hline with ⟨heq, -⟩ | ⟨-, hline⟩
    · exact absurd heq hne
    · exact hx line session' hline hs' he'
  | drop =>
    intro line session hline hs he
    rcases lines_update hline with ⟨heq, -⟩ | ⟨-, hline⟩
    · exact absurd heq hne
    · cases slot with
      | standby index => exact hx line session hline hs he
      | primary =>
        obtain ⟨hmarkets, hinstalled⟩ := hx line session hline hs he
        refine ⟨hmarkets, fun slug member hm hd => ?_⟩
        obtain ⟨old, hold, rfl⟩ := Option.map_eq_some_iff.1 hm
        exact hinstalled slug old (Option.filter_eq_some_iff.1 hold).1 hd

/-! ## Members are subscribed from the session that claims them -/

/-- A member with a source is claimed by the session in the publishing role. -/
def Subscribed (w : Wiring) : Prop := ∀ slug member generation, w.members slug = some member →
  member.source = some generation → ∃ line session, w.lines .primary = some line ∧ line.session = some session ∧
    session.generation = generation ∧ session.claims slug member = true

/-- The publishing session may come to be established, and members may be forgotten. -/
theorem Subscribed.keep (h : w.Subscribed)
    (hprimary : ∀ line session, w.lines .primary = some line → line.session = some session →
      ∃ line' session', w'.lines .primary = some line' ∧ line'.session = some session' ∧
        session'.generation = session.generation ∧ session'.markets = session.markets ∧
        session'.version = session.version)
    (hmembers : ∀ slug member' generation, w'.members slug = some member' → member'.source = some generation →
      ∃ member, w.members slug = some member ∧ member.source = some generation ∧
        member.installed = member'.installed) : w'.Subscribed := by
  intro slug member' generation hm' hsource'
  obtain ⟨member, hm, hsource, hinstalled⟩ := hmembers slug member' generation hm' hsource'
  obtain ⟨line, session, hline, hs, hgeneration, hclaims⟩ := h slug member generation hm hsource
  obtain ⟨line', session', hline', hs', hg, hmarkets, hversion⟩ := hprimary line session hline hs
  refine ⟨line', session', hline', hs', hg.trans hgeneration, ?_⟩
  simpa [Session.claims, hmarkets, hversion, hinstalled] using hclaims

theorem Subscribed.update (h : w.Subscribed)
    (hf : ∀ line session, slot = .primary → w.lines slot = some line → line.session = some session →
      ∃ session', (f line).session = some session' ∧ session'.generation = session.generation ∧
        session'.markets = session.markets ∧ session'.version = session.version) : (w.update slot f).Subscribed := by
  refine h.keep (fun line session hline hs => ?_) fun _ member _ hm hsource => ⟨member, hm, hsource, rfl⟩
  by_cases hslot : slot = .primary
  · subst hslot
    obtain ⟨session', hs', hsame⟩ := hf line session rfl hline hs
    exact ⟨f line, session', by simp [Wiring.update, hline], hs', hsame⟩
  · exact ⟨line, session, by simp [Wiring.update, Ne.symm hslot, hline], hs, rfl, rfl, rfl⟩

/-- Without a publishing session no member has a source. -/
theorem Subscribed.source_none (h : w.Subscribed) (hline : w.lines .primary = some line) (hfree : line.session = none)
    (hm : w.members slug = some member) : member.source = none := by
  cases hsource : member.source with
  | none => rfl
  | some generation =>
    obtain ⟨_, session, hline', hs, -⟩ := h slug member generation hm hsource
    obtain rfl := Option.some.inj (hline.symm.trans hline')
    simp [hfree] at hs

theorem Subscribed.carry (h : w.Subscribed) (hline : w.lines .primary = some line) (hs : line.session = some session) :
    (w.carry session).Subscribed := by
  intro slug member' generation hm' hsource
  obtain ⟨member, hm, rfl⟩ := Option.map_eq_some_iff.1 hm'
  dsimp only at hsource ⊢
  split at hsource
  · rename_i hclaims
    refine ⟨line, session, hline, hs, Option.some.inj hsource, ?_⟩
    rw [if_pos hclaims]
    exact hclaims
  · rename_i hclaims
    rw [if_neg hclaims]
    exact h slug member generation hm hsource

theorem Subscribed.dial (h : w.Subscribed) (hdial : Dial w slot w') : w'.Subscribed := by
  obtain ⟨line, hline, hfree⟩ := hdial
  refine Subscribed.update h fun old session _ hold hs => ?_
  obtain rfl := Option.some.inj (hline.symm.trans hold)
  simp [hfree] at hs

theorem Subscribed.move (h : w.Subscribed) (hmove : Move w w') : w'.Subscribed := by
  cases hmove with
  | confirm slot line c hline hc hdialling =>
    refine h.update fun old session _ hold hs => ⟨c.ready, rfl, ?_⟩
    obtain rfl := Option.some.inj (hline.symm.trans hold)
    obtain rfl := Option.some.inj (hc.symm.trans hs)
    exact ⟨rfl, rfl, rfl⟩
  | settle slot line c version hline hc hdialling =>
    have hcarried : (w.carryOn c slot).Subscribed := by
      cases slot with
      | primary => exact h.carry hline hc
      | standby index => exact h
    refine hcarried.update fun old session _ hold hs => ⟨c.ready, rfl, ?_⟩
    have hsame : (w.carryOn c slot).lines = w.lines := by cases slot <;> rfl
    obtain rfl := Option.some.inj (hline.symm.trans (hsame ▸ hold))
    obtain rfl := Option.some.inj (hc.symm.trans hs)
    exact ⟨rfl, rfl, rfl⟩
  | drop slot =>
    cases slot with
    | primary =>
      intro slug member generation hm hsource
      obtain ⟨_, -, rfl⟩ := Option.map_eq_some_iff.1 hm
      cases hsource
    | standby index => exact h.update fun _ _ hslot => by cases hslot
  | take index primary line c hrole hfree hline hc =>
    have hmoved : (w.update .primary fun _ => ⟨some c, none, line.wire⟩).Subscribed := by
      intro slug member generation hm hsource
      rw [h.source_none hrole hfree hm] at hsource
      cases hsource
    have hpublishing : (w.update .primary fun _ => ⟨some c, none, line.wire⟩).lines .primary =
        some ⟨some c, none, line.wire⟩ := by
      simp [Wiring.update, hrole]
    exact (hmoved.carry hpublishing rfl).update fun _ _ hslot => by cases hslot
  | wire slot line c hline hc he hcarries =>
    exact h.update fun old session _ _ hs => ⟨session, hs, rfl, rfl, rfl⟩
  | shed => exact fun _ _ _ hm => by simp at hm
  | install slug wanted =>
    refine h.keep (fun old session hold hs => ⟨old, session, hold, hs, rfl, rfl, rfl⟩) fun k member _ hm hsource => ?_
    dsimp only at hm
    split at hm
    · cases hm
      cases hsource
    · exact ⟨member, hm, hsource, rfl⟩
  | unwant slug wanted =>
    refine h.keep (fun old session hold hs => ⟨old, session, hold, hs, rfl, rfl, rfl⟩) fun k member _ hm hsource => ?_
    dsimp only at hm
    split at hm
    · obtain ⟨old, hold, rfl⟩ := Option.map_eq_some_iff.1 hm
      exact ⟨old, hold, hsource, rfl⟩
    · exact ⟨member, hm, hsource, rfl⟩
  | close slug =>
    refine h.keep (fun old session hold hs => ⟨old, session, hold, hs, rfl, rfl, rfl⟩) fun k member _ hm hsource => ?_
    dsimp only at hm
    split at hm
    · cases hm
    · exact ⟨member, hm, hsource, rfl⟩

theorem Subscribed.moves (h : w.Subscribed) (hmoves : Moves w w') : w'.Subscribed := by
  induction hmoves with
  | refl => exact h
  | tail _ hmove ih => exact ih.move hmove

/-! ## Sessions that stay -/

def sessionAt (w : Wiring) (slot : Slot) : Option Session := (w.lines slot).bind (·.session)

/-- A role's session announced that it is ready: its dial comes through, if it has not before. -/
inductive Readied (w : Wiring) (slot : Slot) : Wiring → Prop
  | confirm (line : Line) (session : Session) (found : w.lines slot = some line) (runs : line.session = some session)
      (settled : line.dialling = none) :
      Readied w slot (w.update slot fun line => { line with session := some session.ready })
  | settle (line : Line) (session : Session) (version : Nat) (found : w.lines slot = some line)
      (runs : line.session = some session) (dialling : line.dialling = some version) :
      Readied w slot (w.settle slot session version)

theorem Readied.move (h : Readied w slot w') : Move w w' := by
  cases h with
  | confirm line session hline hs hdialling => exact .confirm slot line session hline hs hdialling
  | settle line session version hline hs hdialling => exact .settle slot line session version hline hs hdialling

theorem sessionAt_update (w : Wiring) (slot x : Slot) (f : Line → Line) :
    (w.update slot f).sessionAt x = if x = slot then (w.lines x).bind (fun line => (f line).session) else w.sessionAt x := by
  simp only [sessionAt, update]
  split
  · cases w.lines x <;> rfl
  · rfl

theorem Readied.sessionAt (h : Readied w slot w') (hs : w.sessionAt x = some session) :
    w'.sessionAt x = some session ∨ w'.sessionAt x = some session.ready := by
  have hready {line : Line} {c : Session} (hline : w.lines slot = some line) (hc : line.session = some c) (hx : x = slot) :
      c = session := by
    subst hx
    simpa [Wiring.sessionAt, hline, hc] using hs
  cases h with
  | confirm line c hline hc =>
    rw [sessionAt_update]
    split
    · rename_i hx
      exact .inr (by simp [hx, hline, hready hline hc hx])
    · exact .inl hs
  | settle line c version hline hc =>
    have hlines : (w.carryOn c slot).lines = w.lines := by cases slot <;> rfl
    unfold Wiring.settle
    rw [sessionAt_update]
    split
    · rename_i hx
      exact .inr (by rw [hlines, hx, hline, ← hready hline hc hx]; rfl)
    · exact .inl (by rw [Wiring.sessionAt, hlines]; exact hs)

/-- Members go on, some of them subscribed from the session that is now in the publishing role. -/
def Resourced (w : Wiring) (publishing : Option Session) (members : String → Option Member) : Prop :=
  ∀ slug member', members slug = some member' → ∃ member, w.members slug = some member ∧
    member'.desired = member.desired ∧ member'.installed = member.installed ∧
      (member'.source = member.source ∨ ∃ session, publishing = some session ∧ member'.source = some session.generation)

theorem Readied.resourced (h : Readied w slot w') : w.Resourced (w.sessionAt .primary) w'.members := by
  intro slug member' hm'
  cases h with
  | confirm => exact ⟨member', hm', rfl, rfl, .inl rfl⟩
  | settle line c version hline hc =>
    cases slot with
    | standby index => exact ⟨member', hm', rfl, rfl, .inl rfl⟩
    | primary =>
      obtain ⟨member, hm, rfl⟩ := Option.map_eq_some_iff.1 hm'
      refine ⟨member, hm, ?_⟩
      dsimp only
      split
      · exact ⟨rfl, rfl, .inr ⟨c, by simp [Wiring.sessionAt, hline, hc], rfl⟩⟩
      · exact ⟨rfl, rfl, .inl rfl⟩

theorem Dial.sessionAt (h : Dial w slot w') (hs : w.sessionAt x = some session) : w'.sessionAt x = some session := by
  obtain ⟨hfree, -⟩ := h.dialled
  obtain ⟨line, hline, -⟩ := h
  show (w.update slot _).sessionAt x = _
  rw [sessionAt_update]
  split
  · rename_i hx
    subst hx
    exact absurd (hfree.symm.trans hs) (by simp)
  · exact hs

theorem drop_sessionAt (w : Wiring) {slot : Slot} (hne : x ≠ slot) : (w.drop slot).sessionAt x = w.sessionAt x := by
  unfold drop
  rw [sessionAt_update, if_neg hne]
  cases slot <;> rfl

theorem take_sessionAt (w : Wiring) (session : Session) (wire : Nat) (hx : x ≠ .primary)
    (hne : x ≠ .standby index) : (w.take index session wire).sessionAt x = w.sessionAt x := by
  unfold take
  rw [sessionAt_update, if_neg hne]
  show (w.update .primary _).sessionAt x = _
  rw [sessionAt_update, if_neg hx]

theorem take_primary (w : Wiring) (session : Session) (wire : Nat) (hrole : (w.lines .primary).isSome) :
    (w.take index session wire).sessionAt .primary = some session := by
  obtain ⟨line, hline⟩ := Option.isSome_iff_exists.1 hrole
  unfold take
  rw [sessionAt_update, if_neg (by simp)]
  show (w.update .primary _).sessionAt .primary = _
  rw [sessionAt_update, if_pos rfl, hline]
  rfl

/-! ## What a wanted market is fed by -/

/-- Some role has an established session with the slug in its set. -/
def Pooled (w : Wiring) (slug : String) : Prop :=
  ∃ slot session, w.sessionAt slot = some session ∧ session.established = true ∧ slug ∈ session.markets

/-- The member is subscribed from the publishing session, or that one was dialled without it and is to be replaced. -/
def Fed (w : Wiring) (slug : String) (member : Member) : Prop :=
  ∃ session, w.sessionAt .primary = some session ∧
    (member.source = some session.generation ∨ session.established = true ∧ session.claims slug member = false)

/-- With a pool every session feeds the members, and otherwise the publishing one does. -/
def Covered (w : Wiring) (armed : Bool) (slug : String) (member : Member) : Prop :=
  if armed then w.Pooled slug else w.Fed slug member

/-- Sessions that stay where they are cover what they covered. -/
theorem Covered.keep {armed : Bool} {member' : Member} (h : w.Covered armed slug member)
    (hsessions : ∀ x session, w.sessionAt x = some session →
      w'.sessionAt x = some session ∨ w'.sessionAt x = some session.ready)
    (hinstalled : member'.installed = member.installed)
    (hsource : member'.source = member.source ∨
      ∃ session, w.sessionAt .primary = some session ∧ member'.source = some session.generation) :
    w'.Covered armed slug member' := by
  cases armed with
  | true =>
    obtain ⟨slot, session, hs, he, hmem⟩ := h
    rcases hsessions slot session hs with hs' | hs'
    · exact ⟨slot, session, hs', he, hmem⟩
    · exact ⟨slot, session.ready, hs', rfl, hmem⟩
  | false =>
    obtain ⟨session, hs, hfed⟩ := h
    have hclaims : session.claims slug member' = session.claims slug member := by simp [Session.claims, hinstalled]
    have hready : session.ready.claims slug member' = session.claims slug member := hclaims
    have hsource' : member'.source = some session.generation ∨ member'.source = member.source := by
      rcases hsource with hsame | ⟨other, hother, hnew⟩
      · exact .inr hsame
      · exact .inl (by rw [hnew, Option.some.inj (hother.symm.trans hs)])
    rcases hsessions .primary session hs with hs' | hs'
    · refine ⟨session, hs', ?_⟩
      rcases hsource' with hnew | hsame
      · exact .inl hnew
      · rwa [hsame, hclaims]
    · refine ⟨session.ready, hs', ?_⟩
      rcases hsource' with hnew | hsame
      · exact .inl hnew
      · rw [hsame, hready]
        exact hfed.imp_right fun hout => ⟨rfl, hout.2⟩

/-- Another session than the dropped one still covers what it has, also once it took the publishing role. -/
theorem Pooled.take {session : Session} (h : w.Pooled slug) (wire : Nat)
    (hrole : (w.lines .primary).isSome) (hfree : w.sessionAt .primary = none)
    (hruns : w.sessionAt (.standby index) = some session) : (w.take index session wire).Pooled slug := by
  obtain ⟨slot, other, hs, he, hmem⟩ := h
  by_cases hx : slot = .standby index
  · subst hx
    obtain rfl := Option.some.inj (hs.symm.trans hruns)
    exact ⟨.primary, other, w.take_primary other wire hrole, he, hmem⟩
  · have hprimary : slot ≠ .primary := fun heq => by simp [heq, hfree] at hs
    exact ⟨slot, other, (w.take_sessionAt session wire hprimary hx).trans hs, he, hmem⟩

/-- A dialled session is not established, so what follows the set goes on doing so. -/
theorem Dial.reconciled (h : Dial w slot w') (hx : w.Reconciled x) : w'.Reconciled x := by
  obtain ⟨old, hold, hfree⟩ := h
  intro line session hline hs he
  rcases lines_update (w := w) hline with ⟨-, old', -, rfl⟩ | ⟨-, hline⟩
  · obtain rfl := Option.some.inj hs
    cases he
  · exact hx line session hline hs he

/-- Where every established session follows the set, the publishing one is the source of what it feeds, and a session
of the pool has what it covers at its incarnation. -/
theorem Fed.source (h : w.Fed slug member) (hreconciled : w.Reconciled .primary)
    (hm : w.members slug = some member) (hd : member.desired = true) (hwanted : slug ∈ w.wanted) :
    ∃ session, w.sessionAt .primary = some session ∧ member.source = some session.generation := by
  obtain ⟨session, hs, hsource | ⟨he, hout⟩⟩ := h
  · exact ⟨session, hs, hsource⟩
  · obtain ⟨line, hline, hsession⟩ := Option.bind_eq_some_iff.1 hs
    obtain ⟨hmarkets, hinstalled⟩ := hreconciled line session hline hsession he
    have hclaims : session.claims slug member = true := by
      simp [Session.claims, hmarkets, hwanted, hinstalled slug member hm hd]
    simp [hclaims] at hout

theorem Pooled.claims (h : w.Pooled slug) (hreconciled : ∀ slot, w.Reconciled slot)
    (hm : w.members slug = some member) (hd : member.desired = true) :
    ∃ slot session, w.sessionAt slot = some session ∧ session.established = true ∧ session.claims slug member = true := by
  obtain ⟨slot, session, hs, he, hmem⟩ := h
  obtain ⟨line, hline, hsession⟩ := Option.bind_eq_some_iff.1 hs
  obtain ⟨-, hinstalled⟩ := hreconciled slot line session hline hsession he
  exact ⟨slot, session, hs, he, by simp [Session.claims, hmem, hinstalled slug member hm hd]⟩

/-! ## Every session was dialled once -/

/-- The sessions in the roles are among the ones dialled, each of which had a generation of its own. -/
structure Known (dials : List Session) (w : Wiring) : Prop where
  runs : ∀ slot line session, w.lines slot = some line → line.session = some session →
    ∃ dial ∈ dials, dial.ready = session.ready
  fresh : ∀ dial ∈ dials, dial.generation < w.next
  distinct : ∀ dial ∈ dials, ∀ dial' ∈ dials, dial.generation = dial'.generation → dial = dial'

variable {dials : List Session}

/-- A move puts no session into a role that was in none before. -/
theorem Move.sessions (h : Move w w') (hline : w'.lines slot = some line) (hs : line.session = some session) :
    ∃ slot' line' session', w.lines slot' = some line' ∧ line'.session = some session' ∧
      session'.ready = session.ready := by
  have hsame (h : w.lines slot = some line) : ∃ slot' line' session', w.lines slot' = some line' ∧
      line'.session = some session' ∧ session'.ready = session.ready := ⟨slot, line, session, h, hs, rfl⟩
  cases h with
  | confirm x old c hold hc hdialling =>
    rcases lines_update hline with ⟨-, old', hold', rfl⟩ | ⟨-, hline⟩
    · exact ⟨x, old, c, hold, hc, by rw [← Option.some.inj hs]; rfl⟩
    · exact hsame hline
  | settle x old c version hold hc hdialling =>
    have hlines : (w.carryOn c x).lines = w.lines := by cases x <;> rfl
    rcases lines_update hline with ⟨-, old', hold', rfl⟩ | ⟨-, hline⟩
    · exact ⟨x, old, c, hold, hc, by rw [← Option.some.inj hs]; rfl⟩
    · exact hsame (hlines ▸ hline)
  | drop x =>
    have hlines : (w.leave x).lines = w.lines := by cases x <;> rfl
    rcases lines_update hline with ⟨-, old', hold', rfl⟩ | ⟨-, hline⟩
    · cases hs
    · exact hsame (hlines ▸ hline)
  | take index primary old c hrole hfree hold hc =>
    rcases lines_update hline with ⟨-, old', hold', rfl⟩ | ⟨-, hline⟩
    · cases hs
    · rcases lines_update (w := w) hline with ⟨-, old', hold', rfl⟩ | ⟨-, hline⟩
      · exact ⟨.standby index, old, c, hold, hc, by rw [← Option.some.inj hs]⟩
      · exact hsame hline
  | wire x old c hold hc he hcarries =>
    rcases lines_update hline with ⟨rfl, old', hold', rfl⟩ | ⟨-, hline⟩
    · exact ⟨slot, old', session, hold', hs, rfl⟩
    · exact hsame hline
  | shed =>
    obtain ⟨old, hold, rfl⟩ := Option.map_eq_some_iff.1 hline
    cases hs
  | install | unwant | close => exact hsame hline

theorem Move.next (h : Move w w') : w'.next = w.next := by
  cases h with
  | settle x | drop x => cases x <;> rfl
  | confirm | take | wire | shed | install | unwant | close => rfl

theorem moves_next (h : Moves w w') : w'.next = w.next := by
  induction h with
  | refl => rfl
  | tail _ hmove ih => exact hmove.next.trans ih

theorem Known.moves (h : w.Known dials) (hmoves : Moves w w') : w'.Known dials := by
  induction hmoves with
  | refl => exact h
  | tail _ hmove ih =>
    refine ⟨fun slot line session hline hs => ?_, hmove.next ▸ ih.fresh, ih.distinct⟩
    obtain ⟨slot', line', session', hline', hs', hsame⟩ := hmove.sessions hline hs
    obtain ⟨dial, hdial, hready⟩ := ih.runs slot' line' session' hline' hs'
    exact ⟨dial, hdial, hready.trans hsame⟩

/-- While the generations are not spent, a dialled session has a new one. -/
theorem Known.dial (h : w.Known dials) (hdial : Dial w slot w') (hfits : w.next < u64Max) :
    w'.Known (dials ++ [⟨w.next, w.wanted, w.version, false⟩]) := by
  obtain ⟨old, hold, hfree⟩ := hdial
  have hnext : (w.spawn slot).next = w.next + 1 := by
    simp only [spawn, saturatingAdd]
    omega
  refine ⟨fun x line session hline hs => ?_, fun dial hdial => ?_, fun dial hdial dial' hdial' heq => ?_⟩
  · rcases lines_update (w := w) hline with ⟨-, old', -, rfl⟩ | ⟨-, hline⟩
    · exact ⟨_, List.mem_append_right _ (List.mem_singleton_self _), by rw [← Option.some.inj hs]⟩
    · obtain ⟨dial, hdial, hready⟩ := h.runs x line session hline hs
      exact ⟨dial, List.mem_append_left _ hdial, hready⟩
  · rw [hnext]
    rcases List.mem_append.1 hdial with hold | hnew
    · exact Nat.lt_succ_of_lt (h.fresh dial hold)
    · rw [List.mem_singleton.1 hnew]
      exact Nat.lt_succ_self _
  · rcases List.mem_append.1 hdial with hold | hnew <;> rcases List.mem_append.1 hdial' with hold' | hnew'
    · exact h.distinct dial hold dial' hold' heq
    · have hlt := h.fresh dial hold
      rw [heq, List.mem_singleton.1 hnew'] at hlt
      exact absurd hlt (Nat.lt_irrefl _)
    · have hlt := h.fresh dial' hold'
      rw [← heq, List.mem_singleton.1 hnew] at hlt
      exact absurd hlt (Nat.lt_irrefl _)
    · rw [List.mem_singleton.1 hnew, List.mem_singleton.1 hnew']

end Wiring

end PmWs
