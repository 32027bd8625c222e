-- A store of secrets that several owners share, each under a key that is made of its name: what a
-- write and a removal under one key leave of the others, and when a lookup finds its own.
import PersonalAi.Lib.Table

namespace keyring

open table

variable {O K V : Type} [DecidableEq K]

/-- A secret, and who it was stored for. -/
structure Entry (O V : Type) where
  owner : O
  secret : V
deriving DecidableEq

abbrev Ring (O K V : Type) := Table K (Entry O V)

variable (key : O → K)

/-- Every entry stands under the key of its owner. -/
def Keyed (r : Ring O K V) : Prop := ∀ k e, r.lookup k = some e → key e.owner = k

/-- Under this key there is nothing, or what belongs to this owner. -/
def Own (r : Ring O K V) (k : K) (o : O) : Prop := ∀ e, r.lookup k = some e → e.owner = o

/-- What belongs to others is as it was. -/
def Spares (os : List O) (r r' : Ring O K V) : Prop :=
  ∀ k e, r.lookup k = some e → e.owner ∉ os → r'.lookup k = some e

/-- No other owner that has an entry has the key of this one. -/
def Apart (r : Ring O K V) (o : O) : Prop :=
  ∀ k e, r.lookup k = some e → key e.owner = key o → e.owner = o

variable {key} {r r' r'' : Ring O K V} {o : O} {os : List O} {v : V}

theorem Keyed.insert (h : Keyed key r) (o : O) (v : V) : Keyed key (r.insert (key o) ⟨o, v⟩) := by
  intro k e hk
  rw [lookup_insert_if] at hk
  split at hk
  · rename_i hkey
    cases hk
    exact hkey.symm
  · exact h k e hk

theorem Keyed.erase (h : Keyed key r) (k : K) : Keyed key (r.erase k) := by
  intro j e hj
  rw [lookup_erase_if] at hj
  split at hj
  · cases hj
  · exact h j e hj

theorem Apart.own (h : Apart key r o) (hkeyed : Keyed key r) : Own r (key o) o :=
  fun e he => h (key o) e he (hkeyed (key o) e he)

theorem Spares.refl (os : List O) (r : Ring O K V) : Spares os r r := fun _ _ h _ => h

theorem Spares.trans (h : Spares os r r') (h' : Spares os r' r'') : Spares os r r'' :=
  fun k e hk ho => h' k e (h k e hk ho) ho

theorem Spares.insert {k : K} (h : Own r k o) (ho : o ∈ os) (e' : Entry O V) :
    Spares os r (r.insert k e') := by
  intro j e hj hother
  rw [lookup_insert_if, if_neg]
  · exact hj
  · rintro rfl
    rw [h e hj] at hother
    exact hother ho

theorem Own.erase {k : K} (h : Own r k o) (k' : K) : Own (r.erase k') k o := by
  intro e he
  rw [lookup_erase_if] at he
  split at he
  · cases he
  · exact h e he

/-- What is removed under a key belonged to its owner. -/
theorem Own.spares {k : K} (h : Own r k o) (ho : o ∈ os) : Spares os r (r.erase k) := by
  intro j e hj hother
  rw [lookup_erase_if, if_neg]
  · exact hj
  · rintro rfl
    rw [h e hj] at hother
    exact hother ho

/-- A write under another key leaves what belongs here. -/
theorem Own.insert_ne {k k' : K} (h : Own r k o) (hne : k ≠ k') (e' : Entry O V) :
    Own (r.insert k' e') k o := by
  intro e he
  rw [lookup_insert_if, if_neg hne] at he
  exact h e he

theorem Own.insert_self (k : K) (v : V) : Own (r.insert k ⟨o, v⟩) k o := by
  intro e he
  rw [AList.lookup_insert] at he
  cases he
  rfl

end keyring
