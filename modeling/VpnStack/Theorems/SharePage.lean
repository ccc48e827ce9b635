import VpnStack.SharePage

/-!
# For how long the page answers

The state says no more than the past does: when the page was first fetched, and whether a request was turned away for being too
late. What a request is answered follows from the one test that it passed.
-/

namespace VpnStack

namespace SharePage

/-! ## What a step does to the state -/

/-- The burning of the page does not change when it was fetched. -/
@[simp] theorem burn_fetchedAt (started now : ℚ) (s : State) : (burn started now s).fetchedAt = s.fetchedAt := by
  unfold burn
  split <;> rfl

/-- Nothing brings a dead link back. -/
theorem burn_dead {started now : ℚ} {s : State} (h : s.dead = true) : (burn started now s).dead = true := by
  unfold burn
  split
  · rfl
  · exact h

/-- Looking whether the page has expired does not change when it was fetched. -/
@[simp] theorem expired_fetchedAt (started now : ℚ) (s : State) : (expired started now s).fetchedAt = s.fetchedAt := by
  unfold expired
  split
  · rfl
  · exact burn_fetchedAt started now s

theorem expired_of_dead {started now : ℚ} {s : State} (h : s.dead = true) : expired started now s = s := if_pos h

/-- A link that the test leaves alive was alive, and neither deadline is past. -/
theorem alive_of_expired {started now : ℚ} {s : State} (h : (expired started now s).dead = false) :
    s.dead = false ∧ lapsed started now s = false := by
  unfold expired burn at h
  split at h
  · simp_all
  · rename_i hdead
    split at h
    · cases h
    · rename_i hlapsed
      exact ⟨by simpa using hdead, by simpa using hlapsed⟩

/-- A page that has not lapsed is within its hard timeout. -/
theorem hard_of_lapsed {started now : ℚ} {s : State} (h : lapsed started now s = false) : now - started ≤ hardTimeout := by
  unfold lapsed at h
  split at h
  · cases h
  · rename_i hhard
    exact not_lt.mp hhard

/-- A page that was fetched and has not lapsed is within its grace. -/
theorem grace_of_lapsed {started now fetched : ℚ} {s : State} (h : lapsed started now s = false) (hs : s.fetchedAt = some fetched)
    (hne : fetched ≠ 0) : now - fetched ≤ graceAfterFetch := by
  unfold lapsed at h
  rw [hs] at h
  split at h
  · cases h
  · simpa [hne] using h

/-! ## The test of the path -/

/-- The page, or one of its files, under the token. -/
def Page.Right (p : Page) (path : Text) : Prop :=
  path = p.token ∨ ∃ name, path = p.token ++ '/' :: name ∧ (p.files.lookup name).isSome

/-- What is not the page is a file that is there, or not found. -/
theorem file_cases (p : Page) (path : Text) :
    file p path = .notFound ∨
    ∃ name ctype blob, path = p.token ++ '/' :: name ∧ (p.files.lookup name).isSome ∧ file p path = .file name ctype blob := by
  unfold file
  split
  · rename_i hprefix
    obtain ⟨name, rfl⟩ := List.isPrefixOf_iff_prefix.mp hprefix
    have hname : (p.token ++ ['/'] ++ name).drop (p.token.length + 1) = name := by
      rw [← List.length_singleton (a := '/'), ← List.length_append]
      exact List.drop_left ..
    rw [hname]
    cases hfile : p.files.lookup name with
    | none => exact .inl rfl
    | some file => exact .inr ⟨name, _, _, by simp, by simp [hfile], rfl⟩
  · exact .inl rfl

/-- The first time the page is found is when it was fetched. -/
theorem find_fetchedAt (p : Page) (now : ℚ) (path : Text) (s : State) :
    (find p now path s).2.fetchedAt =
      (s.fetchedAt <|> if (find p now path s).1 = .page then some now else none) := by
  unfold find
  split
  · simp
  · obtain hfile | ⟨name, ctype, blob, -, -, hfile⟩ := file_cases p path
    · simp [hfile]
    · simp [hfile]

/-- What is looked for is never told to have expired. -/
theorem find_ne_expired (p : Page) (now : ℚ) (path : Text) (s : State) : (find p now path s).1 ≠ .expired := by
  unfold find
  split
  · simp
  · obtain hfile | ⟨name, ctype, blob, -, -, hfile⟩ := file_cases p path
    · simp [hfile]
    · simp [hfile]

/-- What is found is asked for under the right token. -/
theorem right_of_find {p : Page} {now : ℚ} {path : Text} {s : State} (h : (find p now path s).1.status = 200) : p.Right path := by
  unfold find at h
  split at h
  · rename_i hpage
    exact .inl hpage
  · obtain hfile | ⟨name, ctype, blob, hpath, hsome, -⟩ := file_cases p path
    · rw [hfile] at h
      cases h
    · exact .inr ⟨name, hpath, hsome⟩

/-! ## What the state knows of the past -/

/-- When the page was first handed out is what the state has, and a link that turned a request away is dead. -/
structure Told (p : Page) (past : List Event) : Prop where
  fetchedAt : (after p past).fetchedAt = firstAt p (fun a => a = .page) past
  dead : ∀ newer e older, past = newer ++ e :: older → answer p older e = some .expired → (after p past).dead = true

/-- A page that is dead stays so. -/
theorem after_dead {p : Page} {past : List Event} {e : Event} (h : (after p past).dead = true) :
    (after p (e :: past)).dead = true := by
  cases e with
  | get now path =>
    show (doGet p now path (after p past)).2.dead = true
    rw [doGet, expired_of_dead h, if_pos h]
    exact h
  | tick now => exact burn_dead h

/-- What one event adds to the past, the state learns. -/
theorem Told.step {p : Page} {past : List Event} (h : Told p past) (e : Event) : Told p (e :: past) where
  fetchedAt := by
    cases e with
    | get now path =>
      show (doGet p now path (after p past)).2.fetchedAt = _
      simp only [firstAt, answer, SharePage.step, doGet]
      split
      · rw [expired_fetchedAt, h.fetchedAt]
        simp
      · rw [find_fetchedAt, expired_fetchedAt, h.fetchedAt]
        simp [Event.now]
    | tick now =>
      show (burn p.started now (after p past)).fetchedAt = _
      rw [burn_fetchedAt, h.fetchedAt]
      simp [firstAt, answer, SharePage.step]
  dead := by
    intro newer e' older hpast hexpired
    cases newer with
    | nil =>
      cases hpast
      cases e with
      | get now path =>
        show (doGet p now path (after p past)).2.dead = true
        simp only [answer, SharePage.step, doGet, Option.some.injEq] at hexpired ⊢
        split at hexpired
        · rename_i hdead
          rw [if_pos hdead]
          exact hdead
        · exact (find_ne_expired _ _ _ _ hexpired).elim
      | tick now => cases hexpired
    | cons e'' newer =>
      cases hpast
      exact after_dead (h.dead newer e' older rfl hexpired)

/-- After any run the state tells of all of it. -/
theorem told (p : Page) (past : List Event) : Told p past := by
  induction past with
  | nil => exact ⟨rfl, fun newer e older h => by simp at h⟩
  | cons e past ih => exact ih.step e

/-- A request that is answered 200 names the page or one of its files under the token, comes within ten minutes of the start and
within two of the first time the page itself was handed out, and was not preceded by one that came too late. -/
theorem served_window (p : Page) (past : List Event) (now : ℚ) (path : Text)
    (h : (answer p past (.get now path)).map Answer.status = some 200) :
    p.Right (path.dropWhile (· = '/')) ∧ now ≤ p.started + 600 ∧
    (∀ fetched, firstAt p (fun a => a = .page) past = some fetched → fetched ≠ 0 → now ≤ fetched + 120) ∧
    ∀ newer e older, past = newer ++ e :: older → answer p older e ≠ some .expired := by
  have htold := told p past
  simp only [answer, step, doGet, Option.map_some, Option.some.injEq] at h
  split at h
  · cases h
  · rename_i halive
    obtain ⟨halive, hlapsed⟩ := alive_of_expired (by simpa using halive)
    refine ⟨right_of_find h, ?_, ?_, ?_⟩
    · have := hard_of_lapsed hlapsed
      unfold hardTimeout at this
      linarith
    · intro fetched hfetched hne
      have := grace_of_lapsed hlapsed (htold.fetchedAt.trans hfetched) hne
      unfold graceAfterFetch at this
      linarith
    · intro newer e older hpast hexpired
      rw [htold.dead newer e older hpast hexpired] at halive
      cases halive

/-- A page with one file. -/
def sample : Page where
  files := [("alice.p12", "IKEv2", [1])]
  token := "token"
  started := 1

/-- The file after the page, while the reaper looks on. -/
theorem served_window_sample :
    sample.Right "token/alice.p12" ∧ (4 : ℚ) ≤ sample.started + 600 ∧
    (∀ fetched, firstAt sample (fun a => a = .page) [.tick 3, .get 2 "/token"] = some fetched → fetched ≠ 0 → (4 : ℚ) ≤ fetched + 120) ∧
    ∀ newer e older, [.tick 3, .get 2 "/token"] = newer ++ e :: older → answer sample older e ≠ some .expired :=
  served_window sample [.tick 3, .get 2 "/token"] 4 "/token/alice.p12" (by decide +kernel)

/-- The window does not open with a file: two are handed out ten minutes apart. -/
theorem served_window_file :
    ¬ ∀ (p : Page) (past : List Event) (now : ℚ) (path : Text),
      List.Pairwise (fun later earlier => earlier ≤ later) (now :: past.map Event.now ++ [p.started]) →
      (answer p past (.get now path)).map Answer.status = some 200 →
      ∀ first, firstAt p (fun a => a.status = 200) past = some first → first ≠ 0 → now ≤ first + 120 := by
  intro h
  have hlate := h sample [.get 2 "/token/alice.p12"] 600 "/token/alice.p12" (by decide +kernel) (by decide +kernel) 2
    (by decide +kernel) (by decide)
  norm_num at hlate

end SharePage

end VpnStack
