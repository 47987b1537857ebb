/-
A cache changes no answer.

A session is a row of requests: to read a source text under a policy, or to forget all programs.

* `Session.Request`, `Session.run` : a session, with a log of the keys that it was asked for with success;
* `recency` : these keys, each at the place of its latest use;
* `Cache.touch_keys` : a cache is the front of that row;
* `run_remembers` : so it is after every session, and what it remembers is what reading gives;
* `parse_remembered` : when a program is handed out from the cache, and what a call answers.

Design notes: a cache without a limit would keep the whole row, and a limit takes its front. A key
is therefore forgotten as soon as enough other keys stand before it.
-/
import FieldLang.Session.Cache
import Mathlib.Data.Finset.Card

namespace FieldLang

/-! ### Rows without repetition -/

section Rows

variable {α : Type} [DecidableEq α] {a b : α} {l : List α}

/-- The members of a list, each at the place where it stands first. -/
def recency : List α → List α
  | [] => []
  | a :: rest => a :: (recency rest).filter (· ≠ a)

theorem mem_recency : a ∈ recency l ↔ a ∈ l := by
  induction l with
  | nil => rfl
  | cons b rest ih =>
    by_cases h : a = b
    · simp [recency, h]
    · simp [recency, h, ih]

theorem nodup_recency (l : List α) : (recency l).Nodup := by
  induction l with
  | nil => exact List.nodup_nil
  | cons a rest ih =>
    refine List.nodup_cons.mpr ⟨fun h => ?_, ih.filter _⟩
    simp at h

/-- What stands before a member does not depend on members that are left out. -/
theorem takeWhile_filter_ne (h : a ≠ b) (l : List α) :
    (l.filter (· ≠ b)).takeWhile (· ≠ a) = (l.takeWhile (· ≠ a)).filter (· ≠ b) := by
  induction l with
  | nil => rfl
  | cons c rest ih =>
    by_cases hb : c = b
    · subst hb
      simpa [h.symm] using ih
    · by_cases ha : c = a
      · subst ha
        simp [hb]
      · simpa [ha, hb] using ih

/-- The members before one of them are the same in any order of first places. -/
theorem mem_takeWhile_recency :
    b ∈ (recency l).takeWhile (· ≠ a) ↔ b ∈ l.takeWhile (· ≠ a) := by
  induction l with
  | nil => rfl
  | cons c rest ih =>
    by_cases hc : c = a
    · simp [recency, hc]
    · simp only [recency, ne_eq, hc, not_false_eq_true, decide_true, List.takeWhile_cons_of_pos,
        List.mem_cons]
      have hrest := takeWhile_filter_ne (Ne.symm hc) (recency rest)
      simp only [ne_eq] at hrest
      rw [hrest, List.mem_filter]
      simp only [ne_eq] at ih
      rw [ih]
      by_cases hb : b = c
      · simp [hb]
      · simp [hb]

/-- A member is among the first `n` if fewer than `n` others stand before it. -/
theorem mem_take_iff (h : a ∈ l) (n : Nat) :
    a ∈ l.take n ↔ (l.takeWhile (· ≠ a)).length < n := by
  induction l generalizing n with
  | nil => simp at h
  | cons b rest ih =>
    cases n with
    | zero => simp
    | succ n =>
      by_cases hb : b = a
      · simp [hb]
      · have hrest : a ∈ rest := (List.mem_cons.mp h).resolve_left (Ne.symm hb)
        simpa [hb, Ne.symm hb] using ih hrest n

/-- The members among the first `n` of a row, by the members of the list before their first place. -/
theorem mem_take_recency (n : Nat) :
    a ∈ (recency l).take n ↔ a ∈ l ∧ (l.takeWhile (· ≠ a)).toFinset.card < n := by
  have hcard : ((recency l).takeWhile (· ≠ a)).length = (l.takeWhile (· ≠ a)).toFinset.card := by
    rw [← List.toFinset_card_of_nodup ((nodup_recency l).sublist (List.takeWhile_sublist _))]
    congr 1
    ext b
    rw [List.mem_toFinset, List.mem_toFinset, mem_takeWhile_recency]
  constructor
  · intro h
    have hmem := List.mem_of_mem_take h
    exact ⟨mem_recency.mp hmem, hcard ▸ (mem_take_iff hmem n).mp h⟩
  · rintro ⟨hmem, hlt⟩
    exact (mem_take_iff (mem_recency.mpr hmem) n).mpr (hcard ▸ hlt)

/-- Of a row without repetition, whose first `n + 1` members are known, the first `n` without one
of them are known. -/
theorem take_filter_take (hl : l.Nodup) (n : Nat) :
    ((l.take (n + 1)).filter (· ≠ a)).take n = (l.filter (· ≠ a)).take n := by
  induction l generalizing n with
  | nil => rfl
  | cons b rest ih =>
    obtain ⟨hb, hrest⟩ := List.nodup_cons.mp hl
    by_cases h : b = a
    · -- the others are all kept
      subst h
      have hkeep : ∀ m : List α, b ∉ m → m.filter (· ≠ b) = m := by
        intro m hm
        refine List.filter_eq_self.mpr fun c hc => ?_
        simpa using fun e : c = b => hm (e ▸ hc)
      have hfront : b ∉ rest.take n := fun hm => hb (List.mem_of_mem_take hm)
      rw [List.take_succ_cons, List.filter_cons_of_neg (by simp), List.filter_cons_of_neg (by simp),
        hkeep _ hb, hkeep _ hfront, List.take_take, min_self]
    · cases n with
      | zero => rfl
      | succ n =>
        rw [List.take_succ_cons, List.filter_cons_of_pos (by simpa using h),
          List.filter_cons_of_pos (by simpa using h), List.take_succ_cons, List.take_succ_cons,
          ih hrest]

end Rows

/-! ### What a cache holds -/

namespace Cache

variable {cache : Cache} {key : Key} {program : Program}

/-- The keys whose programs are remembered, the most recently used one first. -/
def keys (cache : Cache) : List Key :=
  cache.entries.map Prod.fst

theorem mem_of_get? (h : cache.get? key = some program) : (key, program) ∈ cache.entries := by
  obtain ⟨entry, hfind, rfl⟩ := Option.map_eq_some_iff.mp h
  have hkey : entry.1 = key := by simpa using List.find?_some hfind
  exact hkey ▸ List.mem_of_find?_eq_some hfind

theorem get?_isSome : (cache.get? key).isSome ↔ key ∈ cache.keys := by
  simp [get?, keys, List.find?_isSome]

theorem keys_touch (cache : Cache) (key : Key) (program : Program) :
    (cache.touch key program).keys = (key :: cache.keys.filter (· ≠ key)).take capacity := by
  simp only [touch, keys, List.map_take, List.map_cons, List.filter_map]
  congr 3
  exact List.filter_congr fun entry _ => by simp [bne, Bool.beq_eq_decide_eq]

theorem mem_touch {entry : Key × Program} (h : entry ∈ (cache.touch key program).entries) :
    entry = (key, program) ∨ entry ∈ cache.entries :=
  (List.mem_cons.mp (List.mem_of_mem_take h)).imp_right fun hrest => (List.mem_filter.mp hrest).1

/-- What a call can do: to use a remembered program, to remember one, or to fail. -/
inductive Parses (cache : Cache) (key : Key) : Lookup → Prop where
  | remembered {program : Program} (held : cache.get? key = some program) :
    Parses cache key ⟨true, pure program, cache.touch key program⟩
  | read {program : Program} (missing : cache.get? key = none)
    (ok : (FieldLang.parse key.policy key.source).outcome = .ok program) :
    Parses cache key ⟨false, FieldLang.parse key.policy key.source, cache.touch key program⟩
  | failed {e : SourceError} (missing : cache.get? key = none)
    (error : (FieldLang.parse key.policy key.source).outcome = .error e) :
    Parses cache key ⟨false, FieldLang.parse key.policy key.source, cache⟩

theorem parses (cache : Cache) (key : Key) :
    Parses cache key (cache.parse key.policy key.source) := by
  unfold parse
  dsimp only
  split
  · next held => exact .remembered held
  · next missing =>
    split
    · next ok => exact .read missing ok
    · next error => exact .failed missing error

end Cache

/-! ### Sessions -/

/-- What a caller can ask for. -/
inductive Session.Request where
  | parse (key : Key)
  | clear

/-- A cache, with the keys that were used since it was last cleared, the latest use first. -/
structure Session where
  cache : Cache
  used : List Key

namespace Session

/-- Nothing is remembered, and nothing was used. -/
def start : Session := ⟨.empty, []⟩

/-- What a call is answered. -/
def lookup (s : Session) (key : Key) : Cache.Lookup :=
  s.cache.parse key.policy key.source

/-- The session after a call. A key is used when a program is the answer. -/
def answered (s : Session) (key : Key) (found : Cache.Lookup) : Session :=
  ⟨found.cache, if found.answer.outcome.isOk then key :: s.used else s.used⟩

/-- The session after a request. -/
def step (s : Session) : Request → Session
  | .clear => start
  | .parse key => s.answered key (s.lookup key)

/-- The session after some requests. -/
def run (requests : List Request) : Session :=
  requests.foldl step start

/-- The cache holds what reading gives, for the keys that were used last. -/
structure Remembers (s : Session) : Prop where
  sound : ∀ entry ∈ s.cache.entries,
    (FieldLang.parse entry.1.policy entry.1.source).outcome = .ok entry.2
  keys_eq : s.cache.keys = (recency s.used).take Cache.capacity

variable {s : Session} {key : Key} {program : Program}

theorem start_remembers : start.Remembers where
  sound := by simp [start, Cache.empty]
  keys_eq := by simp [start, Cache.empty, Cache.keys, recency]

/-- A use moves a key to the front, in the cache and in the row of all keys. -/
theorem Remembers.touch (h : s.Remembers)
    (ok : (FieldLang.parse key.policy key.source).outcome = .ok program) :
    Remembers ⟨s.cache.touch key program, key :: s.used⟩ where
  sound := by
    intro entry hentry
    rcases Cache.mem_touch hentry with rfl | hold
    · exact ok
    · exact h.sound entry hold
  keys_eq := by
    have hcapacity : Cache.capacity = 255 + 1 := rfl
    dsimp only
    rw [Cache.keys_touch, h.keys_eq, recency, hcapacity, List.take_succ_cons, List.take_succ_cons,
      take_filter_take (nodup_recency s.used)]

/-- A remembered program is the one that reading gives. -/
theorem Remembers.parse_eq (h : s.Remembers) (held : s.cache.get? key = some program) :
    (FieldLang.parse key.policy key.source).outcome = .ok program :=
  h.sound _ (Cache.mem_of_get? held)

theorem Remembers.answered (h : s.Remembers) {found : Cache.Lookup}
    (hfound : Cache.Parses s.cache key found) : (s.answered key found).Remembers := by
  cases hfound with
  | remembered held => exact h.touch (h.parse_eq held)
  | read missing ok => simpa [Session.answered, ok, Except.isOk, Except.toBool] using h.touch ok
  | failed missing error => simpa [Session.answered, error, Except.isOk, Except.toBool] using h

theorem Remembers.step (h : s.Remembers) (r : Request) : (s.step r).Remembers := by
  cases r with
  | clear => exact start_remembers
  | parse key => exact h.answered (Cache.parses s.cache key)

theorem run_remembers (requests : List Request) : (run requests).Remembers := by
  suffices hrun : ∀ s : Session, s.Remembers → (requests.foldl Session.step s).Remembers from
    hrun start start_remembers
  induction requests with
  | nil => exact fun s h => h
  | cons r rest ih => exact fun s h => ih (s.step r) (h.step r)

/-- A key is remembered if fewer than `Cache.capacity` others were used since its latest use. -/
theorem Remembers.get?_isSome (h : s.Remembers) :
    (s.cache.get? key).isSome ↔
      key ∈ s.used ∧ (s.used.takeWhile (· ≠ key)).toFinset.card < Cache.capacity := by
  rw [Cache.get?_isSome, h.keys_eq, mem_take_recency]

end Session

/-- After every session, a call is answered as if nothing was remembered. Its program comes from the
cache if its key was used, and fewer than 256 other keys since the latest use. It then reports
nothing, and otherwise what reading reports. A call that fails leaves the cache as it was. -/
theorem parse_remembered (requests : List Session.Request) (key : Key) :
    let s := Session.run requests
    let found := s.lookup key
    let fresh := parse key.policy key.source
    found.answer.outcome = fresh.outcome ∧
      (found.hit = true ↔
        key ∈ s.used ∧ (s.used.takeWhile (· ≠ key)).toFinset.card < 256) ∧
      found.answer.reported = (if found.hit then [] else fresh.reported) ∧
      (found.answer.outcome.isOk = false → found.cache = s.cache) := by
  intro s found fresh
  have hs : s.Remembers := Session.run_remembers requests
  have hmember : (s.cache.get? key).isSome ↔
      key ∈ s.used ∧ (s.used.takeWhile (· ≠ key)).toFinset.card < 256 := hs.get?_isSome
  have hfound : Cache.Parses s.cache key found := Cache.parses s.cache key
  generalize found = found at hfound ⊢
  -- the program is held, or it is read and held from now on, or there is none
  cases hfound with
  | remembered held =>
    refine ⟨(hs.parse_eq held).symm, ?_, rfl, ?_⟩
    · simpa [held] using hmember
    · intro hfail
      cases hfail
  | read missing ok =>
    refine ⟨rfl, ?_, rfl, ?_⟩
    · simpa [missing] using hmember
    · intro hfail
      simp [ok, Except.isOk, Except.toBool] at hfail
  | failed missing error =>
    refine ⟨rfl, ?_, rfl, fun _ => rfl⟩
    simpa [missing] using hmember

end FieldLang
