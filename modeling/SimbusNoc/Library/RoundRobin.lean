import Mathlib.Data.List.Basic
import Mathlib.Order.Basic

/-!
# Round robin

`n` clients stand in a circle, and a pointer says from which of them on the arbiter looks for one
to serve. After a service the pointer stands one past the client served.

The distance of a client is the number of places from the pointer on to it. A service moves the
pointer towards every client that lies farther than the one served, and puts the one served last.
So while a client waits, one that has been served lies behind it, and stays there.

## Sequences of services

An arbiter that serves the first client that asks never serves one behind `p` while `p` asks
(`dist_le_of_find?`). `Serves` is the sequence of services that it can make in that time: each goes
to a client before `p`. Nobody occurs twice in it (`Serves.nodup`), so `p` waits for at most `n -
1` services, whoever else asks and however often.

## Pointers that move without a service

Some arbiters move their pointer over clients that do not ask. `Turns` allows this. What counts
then is not who lies behind `p`, but how far the pointer has come: the clients served lie nearer
and nearer to `p` as they were seen from the start.
-/

namespace RoundRobin

variable {n next p q r : ℕ}

/-- The number of places from `next` on to `p`. -/
def dist (n next p : ℕ) : ℕ := if next ≤ p then p - next else p + n - next

/-- The clients in the order in which an arbiter with pointer `next` looks at them. -/
def scan (n next : ℕ) : List ℕ := (List.range n).map fun k ↦ (next + k) % n

/-- The pointer after a service of `q`. -/
def advance (n q : ℕ) : ℕ := (q + 1) % n

theorem advance_lt (hn : 0 < n) (q : ℕ) : advance n q < n := Nat.mod_lt _ hn

theorem dist_lt (hnext : next < n) (hp : p < n) : dist n next p < n := by
  rw [dist]
  split <;> omega

/-! ## The scan -/

/-- Client `p` is looked at in place `dist n next p`. -/
theorem scan_dist (hnext : next < n) (hp : p < n) : (scan n next)[dist n next p]? = some p := by
  have hlt := dist_lt hnext hp
  rw [scan, List.getElem?_map, List.getElem?_range hlt, Option.map_some]
  congr 1
  rw [dist]
  split
  · rw [Nat.add_sub_cancel' ‹_›]
    exact Nat.mod_eq_of_lt hp
  · have hsum : next + (p + n - next) = p + n := by omega
    rw [hsum, Nat.add_mod_right, Nat.mod_eq_of_lt hp]

theorem mem_scan (hnext : next < n) : p ∈ scan n next ↔ p < n := by
  constructor
  · intro h
    obtain ⟨k, -, rfl⟩ := List.mem_map.mp h
    exact Nat.mod_lt _ (Nat.zero_lt_of_lt hnext)
  · intro h
    exact List.mem_of_getElem? (scan_dist hnext h)

theorem dist_of_getElem?_scan (hnext : next < n) {k : ℕ} (h : (scan n next)[k]? = some p) :
    dist n next p = k := by
  rw [scan, List.getElem?_map, Option.map_eq_some_iff] at h
  obtain ⟨i, hi, rfl⟩ := h
  obtain ⟨hk, rfl⟩ := List.getElem?_eq_some_iff.mp hi
  rw [List.length_range] at hk
  rw [List.getElem_range, dist]
  by_cases hwrap : next + k < n
  · rw [Nat.mod_eq_of_lt hwrap, if_pos (Nat.le_add_right _ _), Nat.add_sub_cancel_left]
  · have hmod : (next + k) % n = next + k - n := by
      rw [Nat.mod_eq_sub_mod (by omega), Nat.mod_eq_of_lt (by omega)]
    rw [hmod, if_neg (by omega)]
    omega

/-- Whom a scan finds, nobody who also asks comes before. -/
theorem dist_le_of_find? {asks : ℕ → Bool} (hnext : next < n)
    (h : (scan n next).find? asks = some q) (hp : p < n) (hasks : asks p = true) :
    dist n next q ≤ dist n next p := by
  obtain ⟨-, i, hi, hiq, hbefore⟩ := List.find?_eq_some_iff_getElem.mp h
  have hq : (scan n next)[i]? = some q := by rw [List.getElem?_eq_getElem hi, hiq]
  rw [dist_of_getElem?_scan hnext hq]
  by_contra hlt
  have hlt' : dist n next p < i := Nat.lt_of_not_le hlt
  obtain ⟨hj, hjp⟩ := List.getElem?_eq_some_iff.mp (scan_dist hnext hp)
  have hno := hbefore _ hlt'
  rw [hjp, hasks] at hno
  exact absurd hno (by decide)

/-! ## A service

Only the distance from the pointer counts. A service moves the pointer behind the client served:
whoever lay farther off has come nearer, and the one served is last now.
-/

/-- A service brings the pointer nearer to everyone who lies farther than the client served. -/
theorem dist_advance (hnext : next < n) (hq : q < n) (hp : p < n)
    (hlt : dist n next q < dist n next p) :
    dist n (advance n q) p = dist n next p - dist n next q - 1 := by
  rw [advance]
  by_cases hwrap : q + 1 = n
  · rw [hwrap, Nat.mod_self]
    unfold dist at *
    split_ifs at * <;> omega
  · rw [Nat.mod_eq_of_lt (by omega)]
    unfold dist at *
    split_ifs at * <;> omega

theorem dist_advance_self (hq : q < n) : dist n (advance n q) q = n - 1 := by
  rw [advance]
  by_cases hwrap : q + 1 = n
  · rw [hwrap, Nat.mod_self, dist, if_pos (Nat.zero_le q)]
    omega
  · rw [Nat.mod_eq_of_lt (by omega), dist, if_neg (by omega)]
    omega

theorem dist_injective (hnext : next < n) (hp : p < n) (hq : q < n)
    (h : dist n next p = dist n next q) : p = q := by
  unfold dist at h
  split_ifs at h <;> omega

/-- A service of someone before `p` leaves the one served behind `p`. -/
theorem behind_advance_self (hnext : next < n) (hq : q < n) (hp : p < n)
    (hlt : dist n next q < dist n next p) :
    dist n (advance n q) p < dist n (advance n q) q := by
  rw [dist_advance hnext hq hp hlt, dist_advance_self hq]
  have := dist_lt hnext hp
  omega

/-- A service of someone before `p` leaves behind `p` whoever was. -/
theorem behind_advance (hnext : next < n) (hq : q < n) (hp : p < n) (hr : r < n)
    (hlt : dist n next q < dist n next p) (hbehind : dist n next p < dist n next r) :
    dist n (advance n q) p < dist n (advance n q) r := by
  rw [dist_advance hnext hq hp hlt, dist_advance hnext hq hr (Nat.lt_trans hlt hbehind)]
  omega

/-! ## Sequences of services

`Serves` follows a client who waits. The services in the meantime all go to clients between the
pointer and the one who waits, and each leaves its own client behind him, so nobody is served
twice.
-/

/-- While `p` waits, each service goes to someone before `p`. -/
inductive Serves (n p : ℕ) : ℕ → List ℕ → ℕ → Prop
  | nil {next : ℕ} : Serves n p next [] next
  | cons {next next' q : ℕ} {served : List ℕ} : q < n → dist n next q < dist n next p →
      Serves n p (advance n q) served next' → Serves n p next (q :: served) next'

theorem Serves.append {served served' : List ℕ} {next' next'' : ℕ}
    (h : Serves n p next served next') (h' : Serves n p next' served' next'') :
    Serves n p next (served ++ served') next'' := by
  induction h with
  | nil => exact h'
  | cons hq hlt _ ih => exact .cons hq hlt (ih h')

/-- While `p` waits, who lies behind `p` is not served. -/
theorem Serves.not_mem {served : List ℕ} {next' : ℕ} (h : Serves n p next served next')
    (hnext : next < n) (hp : p < n) (hr : r < n) (hbehind : dist n next p < dist n next r) :
    r ∉ served := by
  induction h with
  | nil => exact List.not_mem_nil
  | cons hq hlt _ ih =>
    intro hmem
    rcases List.mem_cons.mp hmem with rfl | hmem
    · exact absurd hlt (Nat.lt_asymm hbehind)
    · exact ih (advance_lt (Nat.zero_lt_of_lt hp) _) (behind_advance hnext hq hp hr hlt hbehind)
        hmem

theorem Serves.nodup {served : List ℕ} {next' : ℕ} (h : Serves n p next served next')
    (hnext : next < n) (hp : p < n) : served.Nodup := by
  induction h with
  | nil => exact List.nodup_nil
  | @cons next next' q served hq hlt hrest ih =>
    have hnext' : advance n q < n := advance_lt (Nat.zero_lt_of_lt hp) q
    rw [List.nodup_cons]
    refine ⟨hrest.not_mem hnext' hp hq (behind_advance_self hnext hq hp hlt), ih hnext'⟩

/-! ## Pointers that also move without a service

Some schedulers move the pointer when a client is refused. `Turns` allows it to move on towards the
client who waits without a service, and the clients served still come nearer and nearer.
-/

/-- While `p` waits, the pointer moves on, but not past `p`, and each service goes to the client it
has come to. -/
inductive Turns (n p : ℕ) : ℕ → List ℕ → Prop
  | nil {next : ℕ} : Turns n p next []
  | wait {next q : ℕ} {served : List ℕ} : q < n → dist n next q ≤ dist n next p →
      Turns n p q served → Turns n p next served
  | serve {next q : ℕ} {served : List ℕ} : q < n → q ≠ p → dist n next q ≤ dist n next p →
      Turns n p (advance n q) served → Turns n p next (q :: served)

theorem dist_self (n ptr : ℕ) : dist n ptr ptr = 0 := by
  rw [dist, if_pos (Nat.le_refl ptr), Nat.sub_self]

/-- On its way the pointer has come nearer by what it has moved. -/
theorem dist_of_le (hnext : next < n) (hq : q < n) (hp : p < n)
    (hle : dist n next q ≤ dist n next p) : dist n q p = dist n next p - dist n next q := by
  unfold dist at *
  split_ifs at * <;> omega

/-- The clients served come nearer and nearer to `p`, so none comes twice. -/
theorem Turns.pairwise {served : List ℕ} (h : Turns n p next served) (hnext : next < n)
    (hp : p < n) : (∀ q ∈ served, q < n ∧ dist n q p ≤ dist n next p) ∧
      served.Pairwise fun q r ↦ dist n r p < dist n q p := by
  induction h with
  | nil => exact ⟨fun _ hq ↦ absurd hq List.not_mem_nil, .nil⟩
  | @wait next q served hq hle _ ih =>
    obtain ⟨hbound, hpairwise⟩ := ih hq
    have hnear := dist_of_le hnext hq hp hle
    refine ⟨fun r hr ↦ ⟨(hbound r hr).1, Nat.le_trans (hbound r hr).2 ?_⟩, hpairwise⟩
    rw [hnear]
    exact Nat.sub_le _ _
  | @serve next q served hq hne hle _ ih =>
    obtain ⟨hbound, hpairwise⟩ := ih (advance_lt (Nat.zero_lt_of_lt hq) q)
    have hnear := dist_of_le hnext hq hp hle
    have hself := dist_self n q
    have hpos : dist n q q < dist n q p := by
      rw [hself]
      refine Nat.pos_of_ne_zero fun hzero ↦ hne (dist_injective hq hq hp ?_)
      rw [hself, hzero]
    have hpast := dist_advance hq hq hp hpos
    have hless : ∀ r ∈ served, dist n r p < dist n q p := by
      intro r hr
      have := (hbound r hr).2
      omega
    have hself_le : dist n q p ≤ dist n next p := by
      rw [hnear]
      exact Nat.sub_le _ _
    refine ⟨fun r hr ↦ ?_, List.pairwise_cons.mpr ⟨hless, hpairwise⟩⟩
    rcases List.mem_cons.mp hr with rfl | hr
    · exact ⟨hq, hself_le⟩
    · exact ⟨(hbound r hr).1, Nat.le_trans (Nat.le_of_lt (hless r hr)) hself_le⟩

theorem Turns.nodup {served : List ℕ} (h : Turns n p next served) (hnext : next < n)
    (hp : p < n) : served.Nodup :=
  (h.pairwise hnext hp).2.imp fun hlt heq ↦ by
    subst heq
    exact Nat.lt_irrefl _ hlt

theorem Turns.lt {served : List ℕ} (h : Turns n p next served) (hnext : next < n) (hp : p < n)
    (hq : q ∈ served) : q < n :=
  ((h.pairwise hnext hp).1 q hq).1

end RoundRobin
