-- Choosing a peer for an op (the broker crate): the announcements of the other devices, a score for
-- each, and the running best of a listing. The law says when the best device is found.
import Mathlib.Algebra.Group.Int.Defs
import Mathlib.Data.List.MinMax
import Mathlib.Data.Prod.Lex
import Mathlib.Data.String.Basic
import PersonalAi.Core
import PersonalAi.Lib.Chars
import PersonalAi.Lib.Uuid

open pai_core text

namespace pai_broker.rpc.peers

/-! ## Announcements -/

def CAP_PREFIX : String := "bcap/"

/-- In nanoseconds. -/
def CAP_TTL : Int := 300 * 1000000000

structure DeviceLoad where
  busy : UInt32
  on_battery : Option Bool
  thermal_throttled : Option Bool
  ram_bytes : UInt64
  cpu_cores : UInt32

def DeviceLoad.default : DeviceLoad :=
  { busy := 0, on_battery := none, thermal_throttled := none, ram_bytes := 0, cpu_cores := 0 }

def DeviceLoad.score (l : DeviceLoad) : Int64 :=
  let s := Int64.ofNat (l.ram_bytes.toNat / 2 ^ 30) + Int64.ofNat l.cpu_cores.toNat * 2
  let s := s - Int64.ofNat l.busy.toNat * 10
  let s := if l.on_battery = some true then s - 1000 else s
  if l.thermal_throttled = some true then s - 500 else s

/-- `ts` is the instant that the text gives, or nothing if it is no timestamp. -/
structure BrokerCaps where
  v : UInt8
  device : String
  ops : List String
  ts : Option Int
  load : Option DeviceLoad

/-- A listed object, what a pull of its key gives, and the time of the turn. The transport answers; a
payload that does not open or does not parse is `none`. -/
structure Listed where
  key : String
  tombstone : Bool
  pulled : Option (SyncObject (Option BrokerCaps))
  now : Int

/-- `pai_storage::parse_ts`: what is no timestamp is the time of the call. -/
def parse_ts (ts : Option Int) (now : Int) : Int := ts.getD now

/-! ## The call -/

section Calls
variable {D : Type} [LinearOrder D] (parse_str : String → Option D) (op : String)
  (weight : Option (D → Int64))

/-- What a turn of the loop does not skip: the load and the device of an announcement. -/
def candidate (t : Listed) : Option (DeviceLoad × D) :=
  if ( strip_prefix CAP_PREFIX t.key).isNone || t.tombstone then none
  else
    match t.pulled with
    | none => none
    | some obj =>
      match obj.ciphertext with
      | none => none
      | some caps =>
        if caps.v != 1 || !caps.ops.any (· == op) then none
        else if t.now - parse_ts caps.ts t.now > CAP_TTL then none
        else
          match parse_str caps.device with
          | none => none
          | some dev => some (caps.load.getD DeviceLoad.default, dev)

/-- `a += b`: a build that checks for overflow panics, another one wraps. -/
def add_assign (overflow_checks : Bool) (a b : Int64) : Option Int64 :=
  if overflow_checks && decide ((a + b).toInt ≠ a.toInt + b.toInt) then none else some (a + b)

def weighed (overflow_checks : Bool) (c : DeviceLoad × D) : Option Int64 :=
  match weight with
  | some w => add_assign overflow_checks c.1.score (w c.2)
  | none => some c.1.score

def better (best : Option (Int64 × D)) (score : Int64) (dev : D) : Bool :=
  match best with
  | none => true
  | some (bs, bd) => decide (score > bs) || (decide (score = bs) && decide (dev < bd))

def find_from (overflow_checks : Bool) : Option (Int64 × D) → List Listed → Option (Option D)
  | best, [] => some (best.map (·.2))
  | best, t :: rest =>
    match candidate parse_str op t with
    | none => find_from overflow_checks best rest
    | some c =>
      (weighed weight overflow_checks c).bind fun score =>
        find_from overflow_checks (if better best score c.2 then some (score, c.2) else best) rest

/-- The device, or `none` where the call panics. -/
def find_peer (overflow_checks : Bool) (ts : List Listed) : Option (Option D) :=
  find_from parse_str op weight overflow_checks none ts

/-! ## What is wanted -/

/-- The announcements of devices that open, have version 1, offer the op and are fresh. -/
def offers (ts : List Listed) : List (DeviceLoad × D) := ts.filterMap (candidate parse_str op)

/-- The score of an announcement with the weight of its device, as a number. -/
def total (c : DeviceLoad × D) : Int :=
  c.1.score.toInt + (weight.map fun w => (w c.2).toInt).getD 0

/-- No announcement has more, and those with as much are of devices with no smaller id. -/
def Best (cs : List (DeviceLoad × D)) (d : D) : Prop :=
  ∃ c ∈ cs, c.2 = d ∧ ∀ c' ∈ cs, total weight c' < total weight c ∨
    (total weight c' = total weight c ∧ d ≤ c'.2)

/-- In every build the call comes to its end: with no device exactly where none offers the op, else
with the best one, and in every order of the listing with the same. -/
def Selects (ts : List Listed) : Prop :=
  ∀ overflow_checks, ∃ r, find_peer parse_str op weight overflow_checks ts = some r ∧
    (r = none ↔ offers parse_str op ts = []) ∧
    (∀ d, r = some d → Best weight (offers parse_str op ts) d) ∧
    ∀ ts', ts'.Perm ts → find_peer parse_str op weight overflow_checks ts' = some r

/-- The score of each announcement leaves room for the weight of its device. -/
def Fits (ts : List Listed) : Prop :=
  ∀ c ∈ offers parse_str op ts, -2 ^ 63 ≤ total weight c ∧ total weight c < 2 ^ 63

end Calls

/-! ## Scores -/

/-- What `score` computes, as a number. -/
def exact_score (l : DeviceLoad) : Int :=
  (l.ram_bytes.toNat / 2 ^ 30 : Nat) + l.cpu_cores.toNat * 2 - l.busy.toNat * 10 -
    (if l.on_battery = some true then 1000 else 0) -
    (if l.thermal_throttled = some true then 500 else 0)

theorem bmod_small {n : Int} (hlo : -2 ^ 40 ≤ n) (hhi : n < 2 ^ 40) : n.bmod (2 ^ 64) = n :=
  Int.bmod_eq_of_le (by omega) (by omega)

/-- A difference of small numbers does not overflow. -/
theorem toInt_sub_small {a b : Int64} (hlo : -2 ^ 40 ≤ a.toInt - b.toInt)
    (hhi : a.toInt - b.toInt < 2 ^ 40) : (a - b).toInt = a.toInt - b.toInt := by
  rw [Int64.toInt_sub, bmod_small hlo hhi]

/-- What is taken off a score where something is wrong with the device. -/
theorem penalty_toInt {s k : Int64} (wrong : Prop) [Decidable wrong] (hlo : -2 ^ 39 ≤ s.toInt)
    (hhi : s.toInt < 2 ^ 39) (hpos : 0 ≤ k.toInt) (hk : k.toInt ≤ 1000) :
    (if wrong then s - k else s).toInt = s.toInt - (if wrong then k.toInt else 0) ∧
      s.toInt - 1000 ≤ (if wrong then s - k else s).toInt ∧
      (if wrong then s - k else s).toInt ≤ s.toInt := by
  split
  · have hsub := @toInt_sub_small s k (by omega) (by omega)
    omega
  · omega

/-- No step of `score` overflows, whatever is announced. -/
theorem score_toInt (l : DeviceLoad) : l.score.toInt = exact_score l := by
  have hram : l.ram_bytes.toNat / 2 ^ 30 < 2 ^ 34 := by
    have := l.ram_bytes.toNat_lt
    omega
  have hcores := l.cpu_cores.toNat_lt
  have hbusy := l.busy.toNat_lt
  have hram' : (Int64.ofNat (l.ram_bytes.toNat / 2 ^ 30)).toInt = (l.ram_bytes.toNat / 2 ^ 30 : Nat) :=
    Int64.toInt_ofNat_of_lt (by omega)
  have hcores' : (Int64.ofNat l.cpu_cores.toNat * 2).toInt = l.cpu_cores.toNat * 2 := by
    rw [Int64.toInt_mul, Int64.toInt_ofNat_of_lt (by omega), show (2 : Int64).toInt = 2 from rfl]
    exact bmod_small (by omega) (by omega)
  have hbusy' : (Int64.ofNat l.busy.toNat * 10).toInt = l.busy.toNat * 10 := by
    rw [Int64.toInt_mul, Int64.toInt_ofNat_of_lt (by omega), show (10 : Int64).toInt = 10 from rfl]
    exact bmod_small (by omega) (by omega)
  have hsum : (Int64.ofNat (l.ram_bytes.toNat / 2 ^ 30) + Int64.ofNat l.cpu_cores.toNat * 2).toInt =
      (l.ram_bytes.toNat / 2 ^ 30 : Nat) + l.cpu_cores.toNat * 2 := by
    rw [Int64.toInt_add, hram', hcores']
    exact bmod_small (by omega) (by omega)
  have hload : (Int64.ofNat (l.ram_bytes.toNat / 2 ^ 30) + Int64.ofNat l.cpu_cores.toNat * 2 -
      Int64.ofNat l.busy.toNat * 10).toInt =
      (l.ram_bytes.toNat / 2 ^ 30 : Nat) + l.cpu_cores.toNat * 2 - l.busy.toNat * 10 := by
    rw [toInt_sub_small (by omega) (by omega), hsum, hbusy']
  unfold DeviceLoad.score exact_score
  dsimp only
  generalize Int64.ofNat (l.ram_bytes.toNat / 2 ^ 30) + Int64.ofNat l.cpu_cores.toNat * 2 -
    Int64.ofNat l.busy.toNat * 10 = s at hload ⊢
  obtain ⟨hbattery, hlo, hhi⟩ := @penalty_toInt s 1000 (l.on_battery = some true) _ (by omega)
    (by omega) (by decide) (by decide)
  generalize (if l.on_battery = some true then s - 1000 else s) = s' at hbattery hlo hhi ⊢
  obtain ⟨hthrottled, -⟩ := @penalty_toInt s' 500 (l.thermal_throttled = some true) _ (by omega)
    (by omega) (by decide) (by decide)
  rw [hthrottled, hbattery, hload]
  rfl

/-! ## Sums -/

section Sums
variable {D : Type} {weight : Option (D → Int64)} {overflow_checks : Bool}

/-- The sum of an announcement, as the machine has it. -/
def sum (weight : Option (D → Int64)) (c : DeviceLoad × D) : Int64 :=
  match weight with
  | some w => c.1.score + w c.2
  | none => c.1.score

theorem sum_toInt {c : DeviceLoad × D} (hlo : -2 ^ 63 ≤ total weight c)
    (hhi : total weight c < 2 ^ 63) : (sum weight c).toInt = total weight c := by
  unfold sum total at *
  cases weight with
  | none => simp
  | some w =>
    simp only [Option.map_some, Option.getD_some] at hlo hhi ⊢
    rw [Int64.toInt_add]
    exact Int.bmod_eq_of_le (by omega) (by omega)

/-- In a build that checks, the sum is there exactly if it is a 64-bit number. -/
theorem weighed_checked (c : DeviceLoad × D) :
    weighed weight true c =
      if -2 ^ 63 ≤ total weight c ∧ total weight c < 2 ^ 63 then some (sum weight c) else none := by
  unfold weighed sum total add_assign
  cases weight with
  | none =>
    have hlo := c.1.score.le_toInt
    have hhi := c.1.score.toInt_lt
    simp only [Option.map_none, Option.getD_none]
    rw [if_pos ⟨by omega, by omega⟩]
  | some w =>
    simp only [Option.map_some, Option.getD_some, Bool.true_and]
    have hexact : (c.1.score + w c.2).toInt = c.1.score.toInt + (w c.2).toInt ↔
        -2 ^ 63 ≤ c.1.score.toInt + (w c.2).toInt ∧ c.1.score.toInt + (w c.2).toInt < 2 ^ 63 := by
      constructor
      · intro h
        rw [← h]
        exact ⟨Int64.le_toInt _, Int64.toInt_lt _⟩
      · rintro ⟨hlo, hhi⟩
        rw [Int64.toInt_add]
        exact Int.bmod_eq_of_le (by omega) (by omega)
    by_cases hsum : (c.1.score + w c.2).toInt = c.1.score.toInt + (w c.2).toInt
    · have hfits : decide ((c.1.score + w c.2).toInt ≠ c.1.score.toInt + (w c.2).toInt) ≠ true := by
        rw [ne_eq, decide_eq_true_iff]
        exact not_not_intro hsum
      rw [if_neg hfits, if_pos (hexact.mp hsum)]
    · rw [if_pos (decide_eq_true hsum), if_neg (fun h => hsum (hexact.mpr h))]

theorem weighed_fits {c : DeviceLoad × D} (hlo : -2 ^ 63 ≤ total weight c)
    (hhi : total weight c < 2 ^ 63) : weighed weight overflow_checks c = some (sum weight c) := by
  cases overflow_checks with
  | true => rw [weighed_checked, if_pos ⟨hlo, hhi⟩]
  | false =>
    unfold weighed sum add_assign
    cases weight <;> rfl

end Sums

/-! ## The running best -/

section Running
variable {D : Type} [LinearOrder D] {parse_str : String → Option D} {op : String}
  {weight : Option (D → Int64)} {overflow_checks : Bool} {ts ts' : List Listed}

/-- What a scored device is compared by: the score first, then the smaller id. -/
def rank (p : Int64 × D) : Lex (Int × Dᵒᵈ) := toLex (p.1.toInt, OrderDual.toDual p.2)

theorem better_iff (p : Int64 × D) (score : Int64) (dev : D) :
    better (some p) score dev = true ↔ rank p < rank (score, dev) := by
  unfold better rank
  rw [Prod.Lex.toLex_lt_toLex, Bool.or_eq_true, Bool.and_eq_true, decide_eq_true_iff,
    decide_eq_true_iff, decide_eq_true_iff]
  refine or_congr ?_ (and_congr ?_ ?_)
  · exact Int64.lt_iff_toInt_lt
  · rw [← Int64.toInt_inj]
    exact eq_comm
  · exact OrderDual.toDual_lt_toDual.symm

/-- The loop is the running maximum of the ranks. -/
theorem find_from_argmax (hfits : Fits parse_str op weight ts) (best : Option (Int64 × D)) :
    find_from parse_str op weight overflow_checks best ts =
      some ((((offers parse_str op ts).map fun c => (sum weight c, c.2)).foldl
        (List.argAux fun b c => rank c < rank b) best).map (·.2)) := by
  induction ts generalizing best with
  | nil => rfl
  | cons t rest ih =>
    unfold Fits offers at hfits ih
    unfold find_from offers
    rcases hcandidate : candidate parse_str op t with _ | c
    · rw [List.filterMap_cons_none hcandidate] at hfits ⊢
      exact ih hfits best
    · rw [List.filterMap_cons_some hcandidate] at hfits ⊢
      rw [List.forall_mem_cons] at hfits
      obtain ⟨⟨hlo, hhi⟩, hrest⟩ := hfits
      dsimp only
      rw [weighed_fits hlo hhi, Option.bind_some, ih hrest, List.map_cons, List.foldl_cons]
      congr 3
      rcases best with _ | p
      · rfl
      · have hbetter := better_iff p (sum weight c) c.2
        by_cases h : rank p < rank (sum weight c, c.2)
        · rw [if_pos (hbetter.mpr h)]
          exact (if_pos h).symm
        · rw [if_neg (fun hb => h (hbetter.mp hb))]
          exact (if_neg h).symm

/-- Where every sum fits, the call gives the best device, or none where there is no offer. -/
theorem find_peer_best (hfits : Fits parse_str op weight ts) :
    ∃ r, find_peer parse_str op weight overflow_checks ts = some r ∧
      (r = none ↔ offers parse_str op ts = []) ∧
      ∀ d, r = some d → Best weight (offers parse_str op ts) d := by
  have hrun := @find_from_argmax D _ parse_str op weight overflow_checks ts hfits none
  change find_peer parse_str op weight overflow_checks ts = some ((((offers parse_str op ts).map
    fun c => (sum weight c, c.2)).argmax rank).map (·.2)) at hrun
  refine ⟨_, hrun, by simp, fun d hd => ?_⟩
  obtain ⟨p, hp, rfl⟩ := Option.map_eq_some_iff.mp hd
  obtain ⟨c, hc, rfl⟩ := List.mem_map.mp (List.argmax_mem hp)
  refine ⟨c, hc, rfl, fun c' hc' => ?_⟩
  have hle := List.le_of_mem_argmax (List.mem_map_of_mem (f := fun c => (sum weight c, c.2)) hc') hp
  obtain ⟨hlo, hhi⟩ := hfits c hc
  obtain ⟨hlo', hhi'⟩ := hfits c' hc'
  unfold rank at hle
  rw [Prod.Lex.toLex_le_toLex, sum_toInt hlo hhi, sum_toInt hlo' hhi'] at hle
  exact hle

/-- There is one best device. -/
theorem Best.unique {cs : List (DeviceLoad × D)} {d d' : D} (h : Best weight cs d)
    (h' : Best weight cs d') : d = d' := by
  obtain ⟨c, hc, rfl, hbest⟩ := h
  obtain ⟨c', hc', rfl, hbest'⟩ := h'
  rcases hbest c' hc' with hlt | ⟨-, hle⟩
  · rcases hbest' c hc with hlt' | ⟨heq', -⟩
    · omega
    · omega
  · rcases hbest' c hc with hlt' | ⟨-, hle'⟩
    · have := hbest c' hc'
      omega
    · exact le_antisymm hle hle'

theorem Best.perm {cs cs' : List (DeviceLoad × D)} {d : D} (h : Best weight cs d)
    (hperm : cs'.Perm cs) : Best weight cs' d := by
  obtain ⟨c, hc, hd, hbest⟩ := h
  exact ⟨c, hperm.mem_iff.mpr hc, hd, fun c' hc' => hbest c' (hperm.mem_iff.mp hc')⟩

/-- The order of the listing does not count. -/
theorem find_peer_perm (hfits : Fits parse_str op weight ts) (hperm : ts'.Perm ts) :
    find_peer parse_str op weight overflow_checks ts' =
      find_peer parse_str op weight overflow_checks ts := by
  have hoffers : (offers parse_str op ts').Perm (offers parse_str op ts) := hperm.filterMap _
  have hfits' : Fits parse_str op weight ts' := fun c hc => hfits c (hoffers.mem_iff.mp hc)
  obtain ⟨r, hr, hnone, hbest⟩ := @find_peer_best D _ parse_str op weight overflow_checks ts hfits
  obtain ⟨r', hr', hnone', hbest'⟩ :=
    @find_peer_best D _ parse_str op weight overflow_checks ts' hfits'
  rw [hr, hr']
  congr 1
  rcases r with _ | d
  · have hempty := hnone.mp rfl
    rw [hempty, List.perm_nil] at hoffers
    exact hnone'.mpr hoffers
  · rcases r' with _ | d'
    · have hempty := hnone'.mp rfl
      rw [hempty, List.nil_perm] at hoffers
      exact (hnone.mpr hoffers).symm
    · congr 1
      exact (hbest' d' rfl).unique ((hbest d rfl).perm hoffers)

/-- A build that checks for overflow panics at the first sum that does not fit. -/
theorem fits_of_ends {best : Option (Int64 × D)} {r : Option D}
    (h : find_from parse_str op weight true best ts = some r) : Fits parse_str op weight ts := by
  induction ts generalizing best with
  | nil => simp [Fits, offers]
  | cons t rest ih =>
    unfold find_from at h
    unfold Fits offers at ih ⊢
    rcases hcandidate : candidate parse_str op t with _ | c
    · rw [hcandidate] at h
      rw [List.filterMap_cons_none hcandidate]
      exact ih h
    · rw [hcandidate] at h
      rw [List.filterMap_cons_some hcandidate, List.forall_mem_cons]
      obtain ⟨score, hscore, hrest⟩ := Option.bind_eq_some_iff.mp h
      rw [weighed_checked] at hscore
      split at hscore
      · rename_i hfit
        exact ⟨hfit, ih hrest⟩
      · cases hscore

end Running

/-- For every listing and every weight: the call ends with the best device, in every build and in
every order, exactly where each score leaves room for the weight of its device. -/
theorem find_peer_selects_iff {D : Type} [LinearOrder D] (parse_str : String → Option D) (op : String)
    (weight : Option (D → Int64)) (ts : List Listed) :
    Selects parse_str op weight ts ↔ Fits parse_str op weight ts := by
  constructor
  · intro h
    obtain ⟨r, hrun, -⟩ := h true
    exact fits_of_ends hrun
  · intro hfits overflow_checks
    obtain ⟨r, hrun, hnone, hbest⟩ :=
      @find_peer_best D _ parse_str op weight overflow_checks ts hfits
    exact ⟨r, hrun, hnone, hbest, fun ts' hperm => (find_peer_perm hfits hperm).trans hrun⟩

/-! ## A weight at the end of its range -/

/-- A device with 16 GiB that announces itself now. -/
def desktop (device : String) : Listed :=
  let idle : DeviceLoad :=
    { busy := 0, on_battery := none, thermal_throttled := none, ram_bytes := 17179869184, cpu_cores := 8 }
  let caps : BrokerCaps := ⟨1, device, ["app-run"], some 0, some idle⟩
  ⟨CAP_PREFIX ++ device, false, some ⟨CAP_PREFIX ++ device, some caps, 1, ⟨device⟩, 0, false⟩, 0⟩

def first : String := "00000000-0000-4000-8000-000000000001"

def second : String := "00000000-0000-4000-8000-000000000002"

/-- `pai broker prefer` with the greatest weight there is. -/
def prefer (device : String) : Option (String → Int64) :=
  some fun d => if d = device then Int64.maxValue else 0

/-- The preferred device overflows: a build that checks panics, and another one takes the other
device. -/
theorem a_preferred_device_overflows :
    ¬ Selects uuid.parse_str "app-run" (prefer first) [desktop first, desktop second] ∧
      find_peer uuid.parse_str "app-run" (prefer first) true [desktop first, desktop second] = none ∧
      find_peer uuid.parse_str "app-run" (prefer first) false [desktop first, desktop second] =
        some (some second) := by
  have hpanic : find_peer uuid.parse_str "app-run" (prefer first) true
      [desktop first, desktop second] = none := by decide +kernel
  refine ⟨fun h => ?_, hpanic, by decide +kernel⟩
  obtain ⟨r, hrun, -⟩ := h true
  rw [hpanic] at hrun
  cases hrun

end pai_broker.rpc.peers
