-- Where a sync goes: the target of a call from its arguments and the saved values, what is saved
-- behind it, and the notes of what the user has chosen, allowed and given.
import PersonalAi.Lib.Runs
import PersonalAi.LocalTargets

open pai_core

namespace pai_ffi.sync

/-! ## The source -/

/-- The values under `sync.` in the store. -/
structure SyncMeta where
  lan : Option String
  dir : Option String
  relay : Option String
  token : Option String
  allow_remote : Option String
  auto_minutes : Option String
  last_auto : Option String

structure SyncArgs where
  mode : String
  dir : Option String
  relay : Option String
  token : Option String
  lan : Bool
  allow_remote : Bool

inductive Target
  | Lan
  | Folder (dir : String)
  | Relay (url : String) (token : Option String)
deriving DecidableEq

/-- A paired peer that announces its relay, with the token that the two of them share. -/
structure Announced where
  relay_addr : String
  token : Except String String

inductive Transport
  | Relay (base_url : String) (token : Option String)
  | Folder (dir : String)

structure Outcome where
  pushed : Nat
  pulled : Nat
  skipped : Nat

inductive Mode
  | push | pull | run

/-- What a call meets: the peers of the network, the folders, a store that takes the saves or does
not, the vault key, and the engine. -/
structure World where
  discovered : Except String (List Announced)
  opened : String → Except String Unit
  saves : Bool
  vault : Except String Bool
  engine : Mode → Except String Outcome

/-- The relay that a call comes to, also where it does not use it. -/
def relay_of (m : SyncMeta) (args : SyncArgs) : Option String := args.relay.or m.relay

def consent (m : SyncMeta) (args : SyncArgs) : Bool :=
  args.allow_remote || (m.allow_remote = some "1" && args.relay.isNone)

def gate (m : SyncMeta) (args : SyncArgs) : Except Error Unit :=
  match relay_of m args with
  | some r => require_local_or_flag r (consent m args) "sync relay"
  | none => .ok ()

def target (m : SyncMeta) (args : SyncArgs) : Except String Target :=
  if args.lan || m.lan = some "1" then .ok .Lan
  else
    match args.dir.or m.dir with
    | some d => .ok (.Folder d)
    | none =>
      match relay_of m args with
      | some r => .ok (.Relay r (args.token.or m.token))
      | none => .error "no sync target — pass lan:true, a dir, or a relay"

/-- The target of a call, or its error. -/
def pick (m : SyncMeta) (args : SyncArgs) : Except String Target :=
  match gate m args with
  | .error e => .error e.to_string
  | .ok () => target m args

def open_target (w : World) : Target → Except String Transport
  | .Lan =>
    match w.discovered with
    | .error e => .error e
    | .ok [] => .error
      "no paired mesh peer announcing — run `pai sync serve --announce` on it"
    | .ok (target :: _) =>
      target.token.map fun token => .Relay ("http://" ++ target.relay_addr) (some token)
  | .Folder d => (w.opened d).map fun _ => .Folder d
  | .Relay r token => .ok (.Relay r token)

/-- The choice is saved so that the next call needs no arguments. -/
def save (m : SyncMeta) (args : SyncArgs) : SyncMeta :=
  { m with
    lan := some (if args.lan || m.lan = some "1" then "1" else "0")
    dir := args.dir.or m.dir
    relay := relay_of m args
    allow_remote :=
      if (relay_of m args).isSome && args.allow_remote then some "1" else m.allow_remote }

/-- The values behind a call, the target that was saved, the transport that the engine was run
with, and the reply. -/
structure Ran where
  values : SyncMeta
  saved : Option Target
  transport : Option Transport
  reply : Except String Outcome

def mode_of : String → Mode
  | "push" => .push
  | "pull" => .pull
  | _ => .run

def run_sync (m : SyncMeta) (args : SyncArgs) (w : World) : Ran :=
  match pick m args with
  | .error e => { values := m, saved := none, transport := none, reply := .error e }
  | .ok target =>
    match open_target w target with
    | .error e => { values := m, saved := none, transport := none, reply := .error e }
    | .ok transport =>
      let values := if w.saves then save m args else m
      let saved := if w.saves then some target else none
      match w.vault with
      | .error e => { values, saved, transport := none, reply := .error e }
      | .ok false =>
        { values, saved, transport := none
          reply := .error "no vault key — pair a device first (pai pair)" }
      | .ok true =>
        { values, saved, transport := some transport, reply := w.engine (mode_of args.mode) }

/-- The JSON of a call. -/
structure Req where
  mode : Option String
  dir : Option String
  relay : Option String
  token : Option String
  lan : Bool
  auto_minutes : Option Nat
  allow_remote : Bool

def Req.args (req : Req) : SyncArgs :=
  { mode := req.mode.getD "run", dir := req.dir, relay := req.relay, token := req.token,
    lan := req.lan, allow_remote := req.allow_remote }

/-- What the scheduler asks for. -/
def scheduled : SyncArgs :=
  { mode := "run", dir := none, relay := none, token := none, lan := false, allow_remote := false }

/-- `str::parse` at `u64`: an optional plus sign, then decimal digits. -/
def parse_u64 (s : String) : Option Nat :=
  let digits := match s.toList with
    | '+' :: rest => rest
    | cs => cs
  if digits = [] ∨ digits.any (fun c => !c.isDigit) then none
  else
    let n := Nat.ofDigitChars 10 digits 0
    if n < 2 ^ 64 then some n else none

/-- The interval is over. -/
def due (m : SyncMeta) (now : Nat) : Bool :=
  let auto := (m.auto_minutes.bind parse_u64).getD 0
  let last := (m.last_auto.bind parse_u64).getD 0
  auto ≠ 0 && min (auto * 60) (2 ^ 64 - 1) ≤ now - last

/-! ## Runs -/

/-- What a target is without the token. -/
inductive Choice
  | Lan
  | Folder (dir : String)
  | Relay (url : String)
deriving DecidableEq

def Target.choice : Target → Choice
  | .Lan => .Lan
  | .Folder d => .Folder d
  | .Relay r _ => .Relay r

/-- The saved values, and three notes: the choice that was saved last, the relays that the user has
allowed to be remote, and the relay that the saved token is for. -/
structure State where
  values : SyncMeta
  last : Option Choice
  allowed : List String
  token_for : Option String

inductive Act
  | pai_sync_now (req : Except String Req) (w : World)
  | tick (now : Nat) (w : World)

/-- What `run_sync` is called with, if the act comes to it. -/
def call (m : SyncMeta) : Act → Option (SyncMeta × SyncArgs × World)
  | .pai_sync_now (.error _) _ => none
  | .pai_sync_now (.ok req) w =>
    let auto_minutes := if w.saves then req.auto_minutes.map toString else none
    some ({ m with auto_minutes := auto_minutes.or m.auto_minutes }, req.args, w)
  | .tick now w =>
    if due m now then
      some ({ m with last_auto := if w.saves then some (toString now) else m.last_auto },
        scheduled, w)
    else none

def after (s : State) (m : SyncMeta) (args : SyncArgs) (w : World) : State :=
  { values := (run_sync m args w).values
    last := ((run_sync m args w).saved.map Target.choice).or s.last
    allowed := (if args.allow_remote then (relay_of m args).toList else []) ++ s.allowed
    token_for := s.token_for }

def step (s : State) (a : Act) : State :=
  match call s.values a with
  | none => s
  | some (m, args, w) => after s m args w

/-- What the saved values alone name. -/
def saved_choice (m : SyncMeta) : Option Choice :=
  if m.lan = some "1" then some .Lan
  else
    match m.dir with
    | some d => some (.Folder d)
    | none => m.relay.map .Relay

/-- Before the first call: a saved consent and a saved token are for the saved relay. -/
def started (m : SyncMeta) : State :=
  { values := m, last := saved_choice m
    allowed := if m.allow_remote = some "1" then m.relay.toList else []
    token_for := m.relay }

/-! ## What is asked of a call -/

/-- The target that the arguments name. -/
def SyncArgs.named (args : SyncArgs) : Option Choice :=
  if args.lan then some .Lan
  else
    match args.dir with
    | some d => some (.Folder d)
    | none => args.relay.map .Relay

/-- The gate lets a relay pass without any consent. -/
def is_local (url : String) : Prop := require_local_or_flag url false "sync relay" = .ok ()

/-- A call goes for the target that it names, or that was saved last if it names none. A relay at a
public address was allowed, and a token is for the relay that it is sent to. Only the gate may refuse
a named relay. -/
structure HoldsAt (s : State) (args : SyncArgs) : Prop where
  named : ∀ c, args.named = some c → (∃ t, pick s.values args = .ok t ∧ t.choice = c) ∨
    ∃ r, c = .Relay r ∧ require_local_or_flag r args.allow_remote "sync relay" ≠ .ok ()
  unnamed : args.named = none → ∀ c, s.last = some c →
    ∃ t, pick s.values args = .ok t ∧ t.choice = c
  allowed : ∀ r token, pick s.values args = .ok (.Relay r token) →
    is_local r ∨ args.allow_remote = true ∨ r ∈ s.allowed
  given : ∀ r token, pick s.values args = .ok (.Relay r (some token)) →
    args.token = some token ∨ (s.values.token = some token ∧ s.token_for = some r)

/-- The token that a call to the relay sends is its own, or that of the relay. -/
def TokenFor (s : State) (args : SyncArgs) (r : String) : Prop :=
  args.token.isSome = true ∨ s.values.token = none ∨ s.token_for = some r

/-- No saved target stands before the one that is named, the gate is open, and a saved token is for
the relay. -/
def Meets (s : State) (args : SyncArgs) : Prop :=
  match args.named with
  | some .Lan => gate s.values args = .ok ()
  | some (.Folder _) => gate s.values args = .ok () ∧ s.values.lan ≠ some "1"
  | some (.Relay r) => gate s.values args = .ok () →
    s.values.lan ≠ some "1" ∧ s.values.dir = none ∧ TokenFor s args r
  | none => gate s.values args = .ok () ∧ ∀ r, s.last = some (.Relay r) → TokenFor s args r

/-- What is asked of the call of an act. -/
def OfCall (P : State → SyncArgs → Prop) (s : State) (a : Act) : Prop :=
  ∀ m args w, call s.values a = some (m, args, w) → P { s with values := m } args

/-! ## Targets -/

section Targets
variable {m : SyncMeta} {args : SyncArgs} {t : Target} {r : String} {token : Option String}

theorem pick_ok (h : gate m args = .ok ()) : pick m args = target m args := by
  unfold pick
  rw [h]

theorem gate_of_pick (h : pick m args = .ok t) : gate m args = .ok () := by
  unfold pick at h
  split at h
  · cases h
  · assumption

theorem target_relay (h : target m args = .ok (.Relay r token)) :
    relay_of m args = some r ∧ token = args.token.or m.token := by
  unfold target at h
  split at h
  · cases h
  · split at h
    · cases h
    · split at h
      · rename_i hrelay
        cases h
        exact ⟨hrelay, rfl⟩
      · cases h

theorem named_lan (h : args.named = some .Lan) : target m args = .ok .Lan := by
  have hlan : args.lan = true := by
    unfold SyncArgs.named at h
    split at h
    · assumption
    · split at h
      · cases h
      · obtain ⟨r, -, hr⟩ := Option.map_eq_some_iff.mp h
        cases hr
  unfold target
  rw [hlan]
  rfl

theorem named_folder {d : String} (h : args.named = some (.Folder d)) :
    target m args = if m.lan = some "1" then .ok .Lan else .ok (.Folder d) := by
  unfold SyncArgs.named at h
  split at h
  · cases h
  · rename_i hlan
    split at h
    · rename_i d' hdir
      cases h
      unfold target
      rw [eq_false_of_ne_true hlan, hdir]
      by_cases hsaved : m.lan = some "1" <;> simp [hsaved]
    · obtain ⟨r, -, hr⟩ := Option.map_eq_some_iff.mp h
      cases hr

theorem named_relay (h : args.named = some (.Relay r)) :
    args.relay = some r ∧ target m args =
      if m.lan = some "1" then .ok .Lan
      else
        match m.dir with
        | some d => .ok (.Folder d)
        | none => .ok (.Relay r (args.token.or m.token)) := by
  unfold SyncArgs.named at h
  split at h
  · cases h
  · rename_i hlan
    split at h
    · cases h
    · rename_i hdir
      obtain ⟨r', hrelay, hr⟩ := Option.map_eq_some_iff.mp h
      cases hr
      refine ⟨hrelay, ?_⟩
      unfold target relay_of
      rw [eq_false_of_ne_true hlan, hdir, hrelay]
      by_cases hsaved : m.lan = some "1"
      · simp [hsaved]
      · rcases m.dir with _ | d <;> simp [hsaved]

/-- A call that names none goes for what is saved. -/
theorem named_none (h : args.named = none) :
    args.relay = none ∧ target m args =
      match saved_choice m with
      | some .Lan => .ok .Lan
      | some (.Folder d) => .ok (.Folder d)
      | some (.Relay r) => .ok (.Relay r (args.token.or m.token))
      | none => .error "no sync target — pass lan:true, a dir, or a relay" := by
  unfold SyncArgs.named at h
  split at h
  · cases h
  · rename_i hlan
    split at h
    · cases h
    · rename_i hdir
      have hrelay := Option.map_eq_none_iff.mp h
      refine ⟨hrelay, ?_⟩
      unfold target saved_choice relay_of
      rw [eq_false_of_ne_true hlan, hdir, hrelay]
      by_cases hsaved : m.lan = some "1"
      · simp [hsaved]
      · rcases m.dir with _ | d
        · rcases m.relay with _ | r <;> simp [hsaved]
        · simp [hsaved]

/-- What is saved behind a call names its target. -/
theorem saved_choice_save (h : target m args = .ok t) :
    saved_choice (save m args) = some t.choice := by
  unfold target at h
  unfold saved_choice save
  dsimp only
  split at h
  · rename_i hlan
    cases h
    rw [if_pos hlan]
    rfl
  · rename_i hlan
    rw [if_neg hlan, if_neg (by decide)]
    generalize args.dir.or m.dir = dir at h ⊢
    generalize relay_of m args = relay at h ⊢
    rcases dir with _ | d
    · rcases relay with _ | r
      · cases h
      · cases h
        rfl
    · cases h
      rfl

end Targets

/-! ## The law -/

/-- The last choice is what is saved, and a saved consent is for the saved relay. -/
structure Inv (s : State) : Prop where
  last : s.last = saved_choice s.values
  allowed : ∀ r, s.values.relay = some r → s.values.allow_remote = some "1" →
    is_local r ∨ r ∈ s.allowed

section Law
variable {s : State} {m : SyncMeta} {args : SyncArgs} {w : World} {r : String} {token : Option String}

/-- A gate that is open for a relay. -/
theorem gate_open (hgate : gate m args = .ok ()) (hr : relay_of m args = some r) :
    is_local r ∨ args.allow_remote = true ∨ (m.allow_remote = some "1" ∧ m.relay = some r) := by
  unfold gate at hgate
  rw [hr] at hgate
  dsimp only at hgate
  rcases hconsent : consent m args with _ | _
  · rw [hconsent] at hgate
    exact .inl hgate
  · unfold consent at hconsent
    rcases Bool.or_eq_true_iff.mp hconsent with hallow | hsaved
    · exact .inr (.inl hallow)
    · obtain ⟨hallow, hnone⟩ := Bool.and_eq_true_iff.mp hsaved
      unfold relay_of at hr
      rw [Option.isNone_iff_eq_none.mp hnone, Option.none_or] at hr
      exact .inr (.inr ⟨of_decide_eq_true hallow, hr⟩)

theorem allowed_of_inv (h : Inv s) (hpick : pick s.values args = .ok (.Relay r token)) :
    is_local r ∨ args.allow_remote = true ∨ r ∈ s.allowed := by
  have hgate := gate_of_pick hpick
  rw [pick_ok hgate] at hpick
  rcases gate_open hgate (target_relay hpick).1 with hlocal | hallow | ⟨hsaved, hr⟩
  · exact .inl hlocal
  · exact .inr (.inl hallow)
  · rcases h.allowed r hr hsaved with hlocal | hin
    · exact .inl hlocal
    · exact .inr (.inr hin)

/-- What is given for a relay that is picked. -/
theorem given_iff (hpick : pick s.values args = .ok (.Relay r (args.token.or s.values.token))) :
    (∀ r' token, pick s.values args = .ok (.Relay r' (some token)) → args.token = some token ∨
      (s.values.token = some token ∧ s.token_for = some r')) ↔ TokenFor s args r := by
  unfold TokenFor
  rw [hpick]
  rcases hown : args.token with _ | own
  · rcases hsaved : s.values.token with _ | saved
    · simp
    · simp
  · simp

/-- Where no relay is picked, nothing is sent to one. -/
theorem holds_of_other {c : Choice} {t : Target} (hnamed : args.named = some c)
    (hpick : pick s.values args = .ok t) (hc : t.choice = c) (hother : ∀ r token, t ≠ .Relay r token) :
    HoldsAt s args where
  named c' hc' := by
    rw [hnamed] at hc'
    cases hc'
    exact .inl ⟨t, hpick, hc⟩
  unnamed hnone := by
    rw [hnamed] at hnone
    cases hnone
  allowed r token hrelay := absurd (Except.ok.inj (hpick.symm.trans hrelay)) (hother r token)
  given r token hrelay := absurd (Except.ok.inj (hpick.symm.trans hrelay)) (hother r (some token))

theorem meets_iff_lan (hnamed : args.named = some .Lan) : Meets s args ↔ HoldsAt s args := by
  have hmeets : Meets s args ↔ gate s.values args = .ok () := by
    unfold Meets
    rw [hnamed]
  rw [hmeets]
  constructor
  · intro hgate
    exact holds_of_other hnamed ((pick_ok hgate).trans (named_lan hnamed)) rfl (by simp)
  · intro h
    rcases h.named _ hnamed with ⟨t, hpick, -⟩ | ⟨r, hr, -⟩
    · exact gate_of_pick hpick
    · cases hr

theorem meets_iff_folder {d : String} (hnamed : args.named = some (.Folder d)) :
    Meets s args ↔ HoldsAt s args := by
  have hmeets : Meets s args ↔ gate s.values args = .ok () ∧ s.values.lan ≠ some "1" := by
    unfold Meets
    rw [hnamed]
  rw [hmeets]
  have htarget := named_folder (m := s.values) hnamed
  constructor
  · rintro ⟨hgate, hlan⟩
    rw [if_neg hlan] at htarget
    exact holds_of_other hnamed ((pick_ok hgate).trans htarget) rfl (by simp)
  · intro h
    rcases h.named _ hnamed with ⟨t, hpick, hchoice⟩ | ⟨r, hr, -⟩
    · have hgate := gate_of_pick hpick
      refine ⟨hgate, fun hlan => ?_⟩
      rw [pick_ok hgate, htarget, if_pos hlan] at hpick
      cases hpick
      cases hchoice
    · cases hr

/-- The gate of a relay that is named asks for the consent of the call. -/
theorem gate_named (hr : args.relay = some r) :
    gate s.values args = require_local_or_flag r args.allow_remote "sync relay" := by
  unfold gate relay_of consent
  rw [hr]
  simp

/-- Where the gate refuses a relay that is named, nothing is picked. -/
theorem holds_of_refused {e : Error} (hnamed : args.named = some (.Relay r))
    (hgate : gate s.values args = .error e) : HoldsAt s args := by
  have hpick : ∀ t, pick s.values args ≠ .ok t := by
    intro t hpick
    rw [gate_of_pick hpick] at hgate
    cases hgate
  refine ⟨fun c hc => .inr ⟨r, Option.some.inj (hc.symm.trans hnamed), fun hok => ?_⟩, fun hnone => ?_,
    fun r' token hok => absurd hok (hpick _), fun r' token hok => absurd hok (hpick _)⟩
  · obtain ⟨hrelay, -⟩ := named_relay (m := s.values) hnamed
    rw [← gate_named hrelay, hgate] at hok
    cases hok
  · rw [hnamed] at hnone
    cases hnone

theorem meets_iff_relay (hinv : Inv s) (hnamed : args.named = some (.Relay r)) :
    Meets s args ↔ HoldsAt s args := by
  have hmeets : Meets s args ↔ (gate s.values args = .ok () →
      s.values.lan ≠ some "1" ∧ s.values.dir = none ∧ TokenFor s args r) := by
    unfold Meets
    rw [hnamed]
  rw [hmeets]
  obtain ⟨hrelay, htarget⟩ := named_relay (m := s.values) hnamed
  have hgated := gate_named (s := s) hrelay
  constructor
  · intro hmeets
    rcases hgate : gate s.values args with e | ⟨⟩
    · exact holds_of_refused hnamed hgate
    · obtain ⟨hlan, hdir, htoken⟩ := hmeets hgate
      rw [if_neg hlan, hdir] at htarget
      have hpick := (pick_ok hgate).trans htarget
      refine ⟨fun c hc => .inl ⟨_, hpick, Option.some.inj (hnamed.symm.trans hc)⟩, fun hnone => ?_,
        fun r' token hok => allowed_of_inv hinv hok, (given_iff hpick).mpr htoken⟩
      rw [hnamed] at hnone
      cases hnone
  · intro h hgate
    rcases h.named _ hnamed with ⟨t, hpick, hchoice⟩ | ⟨r', hr', hrefused⟩
    · rw [pick_ok hgate, htarget] at hpick
      have hlan : s.values.lan ≠ some "1" := fun hlan => by
        rw [if_pos hlan] at hpick
        cases hpick
        cases hchoice
      rw [if_neg hlan] at hpick htarget
      rcases hdir : s.values.dir with _ | d
      · rw [hdir] at htarget
        exact ⟨hlan, rfl, (given_iff ((pick_ok hgate).trans htarget)).mp h.given⟩
      · rw [hdir] at hpick
        cases hpick
        cases hchoice
    · cases hr'
      exact absurd (hgated.symm.trans hgate) hrefused

/-- Where no relay is named or saved the gate is open. -/
theorem gate_unsaved (hrelay : args.relay = none) (hnone : saved_choice s.values = none) :
    gate s.values args = .ok () := by
  have hsaved : s.values.relay = none := by
    unfold saved_choice at hnone
    split at hnone
    · cases hnone
    · split at hnone
      · cases hnone
      · exact Option.map_eq_none_iff.mp hnone
  unfold gate relay_of
  rw [hrelay, hsaved]
  rfl

theorem meets_iff_none (hinv : Inv s) (hnamed : args.named = none) :
    Meets s args ↔ HoldsAt s args := by
  have hmeets : Meets s args ↔ (gate s.values args = .ok () ∧
      ∀ r, s.last = some (.Relay r) → TokenFor s args r) := by
    unfold Meets
    rw [hnamed]
  rw [hmeets]
  obtain ⟨hrelay, htarget⟩ := named_none (m := s.values) hnamed
  rw [← hinv.last] at htarget
  have hnot : ∀ c, args.named ≠ some c := fun c hc => by
    rw [hnamed] at hc
    cases hc
  constructor
  · rintro ⟨hgate, htoken⟩
    have hpick := (pick_ok hgate).trans htarget
    refine ⟨fun c hc => absurd hc (hnot c), fun _ c hc => ?_, fun r token hok => allowed_of_inv hinv hok,
      fun r token hok => ?_⟩
    · rw [hc] at hpick
      cases c with
      | Lan => exact ⟨_, hpick, rfl⟩
      | Folder d => exact ⟨_, hpick, rfl⟩
      | Relay r => exact ⟨_, hpick, rfl⟩
    · rcases hlast : s.last with _ | (_ | d | r')
      · rw [hpick, hlast] at hok
        cases hok
      · rw [hpick, hlast] at hok
        cases hok
      · rw [hpick, hlast] at hok
        cases hok
      · rw [hlast] at hpick
        exact (given_iff hpick).mpr (htoken r' hlast) r token hok
  · intro h
    have hgate : gate s.values args = .ok () := by
      rcases hlast : s.last with _ | c
      · exact gate_unsaved hrelay (hinv.last.symm.trans hlast)
      · obtain ⟨t, hpick, -⟩ := h.unnamed hnamed c hlast
        exact gate_of_pick hpick
    refine ⟨hgate, fun r hlast => ?_⟩
    rw [hlast] at htarget
    exact (given_iff ((pick_ok hgate).trans htarget)).mp h.given

theorem meets_iff_holds (hinv : Inv s) : Meets s args ↔ HoldsAt s args := by
  rcases hnamed : args.named with _ | (_ | d | r)
  · exact meets_iff_none hinv hnamed
  · exact meets_iff_lan hnamed
  · exact meets_iff_folder hnamed
  · exact meets_iff_relay hinv hnamed

theorem started_inv (m : SyncMeta) : Inv (started m) where
  last := rfl
  allowed r hr hallow := by
    refine .inr ?_
    change m.relay = some r at hr
    change m.allow_remote = some "1" at hallow
    change r ∈ if m.allow_remote = some "1" then m.relay.toList else []
    rw [if_pos hallow, hr]
    exact List.mem_singleton.mpr rfl

/-- The schedule is none of the target. -/
theorem inv_call {a : Act} (h : Inv s) (hcall : call s.values a = some (m, args, w)) :
    Inv { s with values := m } := by
  cases a with
  | pai_sync_now req w' =>
    cases req with
    | error e => cases hcall
    | ok req =>
      cases hcall
      exact ⟨h.last, h.allowed⟩
  | tick now w' =>
    simp only [call] at hcall
    split at hcall
    · cases hcall
      exact ⟨h.last, h.allowed⟩
    · cases hcall

/-- The ways of a call: it ends before its choice, or the choice is made, and saved or not. -/
theorem run_sync_cases (m : SyncMeta) (args : SyncArgs) (w : World) :
    ((run_sync m args w).values = m ∧ (run_sync m args w).saved = none) ∨
      ∃ t, pick m args = .ok t ∧ (run_sync m args w).values = save m args ∧
        (run_sync m args w).saved = some t := by
  unfold run_sync
  rcases pick m args with e | t
  · exact .inl ⟨rfl, rfl⟩
  · dsimp only
    rcases open_target w t with e | transport
    · exact .inl ⟨rfl, rfl⟩
    · dsimp only
      rcases w.saves with _ | _
      · rcases w.vault with e | (_ | _) <;> exact .inl ⟨rfl, rfl⟩
      · rcases w.vault with e | (_ | _) <;> exact .inr ⟨t, rfl, rfl, rfl⟩

/-- The engine is run with the target of the call. -/
theorem run_sync_transport {transport : Transport}
    (h : (run_sync m args w).transport = some transport) :
    ∃ t, pick m args = .ok t ∧ open_target w t = .ok transport := by
  unfold run_sync at h
  rcases hpick : pick m args with e | t
  · rw [hpick] at h
    cases h
  · rw [hpick] at h
    dsimp only at h
    rcases hopen : open_target w t with e | transport'
    · rw [hopen] at h
      cases h
    · rw [hopen] at h
      refine ⟨t, rfl, ?_⟩
      dsimp only at h
      generalize w.vault = vault at h
      rcases vault with e | (_ | _)
      · cases h
      · cases h
      · exact hopen.trans (congrArg Except.ok (Option.some.inj h))

/-- The notes keep to the saved values, whatever the arguments. -/
theorem inv_after (h : Inv { s with values := m }) (args : SyncArgs) (w : World) :
    Inv (after s m args w) := by
  have hmore : ∀ r, r ∈ s.allowed → r ∈ (after s m args w).allowed :=
    fun r hr => List.mem_append_right _ hr
  rcases run_sync_cases m args w with ⟨hvalues, hsaved⟩ | ⟨t, hpick, hvalues, hsaved⟩
  · refine ⟨?_, fun r hr hallow => ?_⟩
    · change ((run_sync m args w).saved.map Target.choice).or s.last = _
      rw [hsaved]
      change s.last = saved_choice (run_sync m args w).values
      rw [hvalues]
      exact h.last
    · change (run_sync m args w).values.relay = some r at hr
      change (run_sync m args w).values.allow_remote = some "1" at hallow
      rw [hvalues] at hr hallow
      exact (h.allowed r hr hallow).imp_right (hmore r)
  · have hgate := gate_of_pick hpick
    rw [pick_ok hgate] at hpick
    refine ⟨?_, fun r hr hallow => ?_⟩
    · change ((run_sync m args w).saved.map Target.choice).or s.last =
        saved_choice (run_sync m args w).values
      rw [hsaved, hvalues, saved_choice_save hpick]
      rfl
    · change (run_sync m args w).values.relay = some r at hr
      change (run_sync m args w).values.allow_remote = some "1" at hallow
      rw [hvalues] at hr hallow
      change relay_of m args = some r at hr
      rcases gate_open hgate hr with hlocal | hnow | ⟨hsaved', hr'⟩
      · exact .inl hlocal
      · refine .inr (List.mem_append_left _ ?_)
        rw [if_pos hnow, hr]
        exact List.mem_singleton.mpr rfl
      · exact (h.allowed r hr' hsaved').imp_right (hmore r)

theorem inv_step (h : Inv s) (a : Act) : Inv (step s a) := by
  unfold step
  rcases hcall : call s.values a with _ | ⟨m, args, w⟩
  · exact h
  · exact inv_after (inv_call h hcall) args w

end Law

/-- In every run of calls and ticks, each call goes where it was told exactly where each meets the
condition, and the engine is run with the target that the call goes for. -/
theorem sync_goes_where_told_iff (m : SyncMeta) (acts : List Act) :
    (runs.Along step (OfCall HoldsAt) (started m) acts ↔
        runs.Along step (OfCall Meets) (started m) acts) ∧
      ∀ m args w transport, (run_sync m args w).transport = some transport →
        ∃ t, pick m args = .ok t ∧ open_target w t = .ok transport := by
  refine ⟨⟨?_, ?_⟩, fun m args w transport => run_sync_transport⟩
  · exact @runs.along_of_invariant State Act step Inv (OfCall HoldsAt) (OfCall Meets)
      (fun s a hs _ => inv_step hs a)
      (fun s a hs ha m args w hcall => (meets_iff_holds (inv_call hs hcall)).mpr (ha m args w hcall))
      _ (started_inv m) acts
  · exact @runs.along_of_invariant State Act step Inv (OfCall Meets) (OfCall HoldsAt)
      (fun s a hs _ => inv_step hs a)
      (fun s a hs ha m args w hcall => (meets_iff_holds (inv_call hs hcall)).mp (ha m args w hcall))
      _ (started_inv m) acts

/-! ### Saved values that stand in front -/

def nothing_saved : SyncMeta :=
  { lan := none, dir := none, relay := none, token := none, allow_remote := none
    auto_minutes := none, last_auto := none }

def no_target : Req :=
  { mode := none, dir := none, relay := none, token := none, lan := false, auto_minutes := none
    allow_remote := false }

def quiet : World :=
  { discovered := .ok [], opened := fun _ => .ok (), saves := true, vault := .ok true
    engine := fun _ => .ok { pushed := 0, pulled := 0, skipped := 0 } }

/-- A folder is named and the network is searched; a relay is named and a folder is used; and a
token goes to another relay than its own. -/
theorem saved_values_stand_in_front :
    ¬ runs.Along step (OfCall HoldsAt) (started { nothing_saved with lan := some "1" })
        [.pai_sync_now (.ok { no_target with dir := some "/media/share" }) quiet] ∧
      ¬ runs.Along step (OfCall HoldsAt) (started { nothing_saved with dir := some "/media/share" })
        [.pai_sync_now (.ok { no_target with relay := some "http://nas:8787" }) quiet] ∧
      ¬ runs.Along step (OfCall HoldsAt)
        (started { nothing_saved with relay := some "http://nas:8787", token := some "secret" })
        [.pai_sync_now (.ok { no_target with relay := some "http://box:8787" }) quiet] := by
  refine ⟨fun h => ?_, fun h => ?_, fun h => ?_⟩
  · have hcall := h.1 _ _ _ rfl
    rcases hcall.named (.Folder "/media/share") rfl with ⟨t, hpick, hchoice⟩ | ⟨r, hr, -⟩
    · cases hpick
      cases hchoice
    · cases hr
  · have hcall := h.1 _ _ _ rfl
    rcases hcall.named (.Relay "http://nas:8787") rfl with ⟨t, hpick, hchoice⟩ | ⟨r, hr, hrefused⟩
    · have hfolder : t = .Folder "/media/share" :=
        Except.ok.inj (hpick.symm.trans (pick_ok (by decide)))
      rw [hfolder] at hchoice
      cases hchoice
    · cases hr
      exact hrefused (by decide)
  · have hcall := h.1 _ _ _ rfl
    rcases hcall.given "http://box:8787" "secret" (by decide) with howned | ⟨-, hfor⟩
    · cases howned
    · exact absurd hfor (by decide)

end pai_ffi.sync
