import VpnStack.Composectl

/-!
# Who is bounced for a change

`changed_services` folds the files two trees differ in through the table of consumers. The fold keeps the stronger of the
two actions for a service, so what it ends with is decided by the set of files that differ and not by the order in which a
set of paths is visited, also by a table that has a service read one file by its mount and another only when it is created; and
it gives up only over a file no line of the table is about, which none of the renderers writes.
-/

namespace VpnStack

open Python

namespace Composectl

variable {table : List (Text × Service × How)}

/-- The file is in one of the trees only, or has other contents in the other. -/
def Differs (previous candidate : Tree) (rel : Text) : Prop := previous.lookup rel ≠ candidate.lookup rel

/-- A file differs that the service reads in this way, as the table has it. -/
def Reads (table : List (Text × Service × How)) (previous candidate : Tree) (s : Service) (how : How) : Prop :=
  ∃ rel, Differs previous candidate rel ∧ consumerIn table rel = some (s, how)

/-- What has to happen to a service: a new container if one of its inputs needs that, a restart if another differs. -/
structure Owed (table : List (Text × Service × How)) (previous candidate : Tree) (changed : Changed) (s : Service) : Prop where
  recreate : changed s = some .recreate ↔ Reads table previous candidate s .recreate
  mount : changed s = some .mount ↔ Reads table previous candidate s .mount ∧ ¬ Reads table previous candidate s .recreate

/-- A tree `build_tree` has rendered, for some keyring, fragments, users and enabled protocols. -/
def Rendered (py : CaseMap) (tree : Tree) : Prop :=
  ∃ secrets common users enabled, (∀ p ∈ enabled, p ∈ protocols py) ∧ buildTree secrets common users enabled = .ok tree

/-! ## The strongest action -/

section Fold

variable {previous candidate : Tree} {changed result : Changed} {rels : List Text}

/-- A recreation is noted where there was one or this is one. -/
theorem note_eq_recreate {s t : Service} {how : How} :
    note changed t how s = some .recreate ↔ changed s = some .recreate ∨ s = t ∧ how = .recreate := by
  unfold note
  split
  · rename_i hrecreate
    refine ⟨.inl, ?_⟩
    rintro (h | ⟨rfl, -⟩)
    · exact h
    · exact hrecreate
  · rename_i hother
    by_cases hs : s = t
    · subst hs
      rw [Function.update_self]
      constructor
      · intro h
        exact .inr ⟨rfl, Option.some.inj h⟩
      · rintro (h | ⟨-, rfl⟩)
        · exact absurd h hother
        · rfl
    · rw [Function.update_of_ne hs]
      exact ⟨.inl, fun h => h.resolve_right fun h => hs h.1⟩

/-- Nothing is noted of a service where nothing was and this is of another. -/
theorem note_eq_none {s t : Service} {how : How} : note changed t how s = none ↔ changed s = none ∧ s ≠ t := by
  unfold note
  split
  · rename_i hrecreate
    refine ⟨fun h => ⟨h, ?_⟩, And.left⟩
    rintro rfl
    rw [hrecreate] at h
    cases h
  · by_cases hs : s = t
    · subst hs
      rw [Function.update_self]
      exact ⟨fun h => (Option.some_ne_none _ h).elim, fun h => absurd rfl h.2⟩
    · rw [Function.update_of_ne hs]
      exact ⟨fun h => ⟨h, hs⟩, And.left⟩

/-- The loop gives up exactly over a file that differs and that nobody is known to read. -/
theorem diff_eq_none :
    diff table previous candidate rels changed = none ↔
      ∃ rel ∈ rels, sameFile previous candidate rel = false ∧ consumerIn table rel = none := by
  induction rels generalizing changed with
  | nil =>
    rw [diff]
    refine ⟨fun h => (Option.some_ne_none _ h).elim, ?_⟩
    rintro ⟨rel, hrel, -⟩
    exact (List.not_mem_nil hrel).elim
  | cons rel rest ih =>
    rw [diff, List.exists_mem_cons_iff]
    split
    · rename_i hsame
      rw [ih, hsame]
      exact ⟨.inr, fun h => h.resolve_left fun h => Bool.noConfusion h.1⟩
    · rename_i hsame
      rw [Bool.not_eq_true] at hsame
      split
      · rename_i hconsumer
        exact ⟨fun _ => .inl ⟨hsame, hconsumer⟩, fun _ => rfl⟩
      · rename_i hconsumer
        rw [ih]
        refine ⟨.inr, fun h => h.resolve_left fun h => ?_⟩
        rw [hconsumer] at h
        exact Option.some_ne_none _ h.2

/-- What the loop has for a service at its end: what it began with, and the files of the service it has gone through. -/
theorem diff_exact (h : diff table previous candidate rels changed = some result) (s : Service) :
    (result s = some .recreate ↔ changed s = some .recreate ∨
        ∃ rel ∈ rels, sameFile previous candidate rel = false ∧ consumerIn table rel = some (s, .recreate)) ∧
      (result s = none ↔ changed s = none ∧
        ∀ rel ∈ rels, sameFile previous candidate rel = false → ∀ how, consumerIn table rel ≠ some (s, how)) := by
  induction rels generalizing changed with
  | nil =>
    cases h
    simp
  | cons rel rest ih =>
    rw [diff] at h
    rw [List.exists_mem_cons_iff, List.forall_mem_cons]
    split at h
    · rename_i hsame
      obtain ⟨hrecreate, hnone⟩ := ih h
      rw [hrecreate, hnone, hsame]
      simp
    · rename_i hsame
      rw [Bool.not_eq_true] at hsame
      split at h
      · cases h
      · rename_i t how hconsumer
        obtain ⟨hrecreate, hnone⟩ := ih h
        rw [hrecreate, hnone, note_eq_recreate, note_eq_none, hsame, hconsumer]
        constructor
        · rw [or_assoc]
          refine or_congr_right (or_congr_left ?_)
          constructor
          · rintro ⟨rfl, rfl⟩
            exact ⟨rfl, rfl⟩
          · rintro ⟨-, heq⟩
            cases heq
            exact ⟨rfl, rfl⟩
        · rw [and_assoc]
          refine and_congr_right' (and_congr_left' ?_)
          constructor
          · intro hne _ how' heq
            cases heq
            exact hne rfl
          · rintro hne rfl
            exact hne rfl how rfl

end Fold

/-! ## The files of both trees -/

section Trees

variable {previous candidate : Tree} {visit : List Text}

/-- The visited paths are those of the files of both trees, in whatever order. -/
def Visits (previous candidate : Tree) (visit : List Text) : Prop :=
  ∀ rel, rel ∈ visit ↔ rel ∈ previous.map (·.1) ∨ rel ∈ candidate.map (·.1)

/-- A path of a tree is found in it. -/
theorem lookup_ne_none_of_mem {tree : Tree} {rel : Text} (h : rel ∈ tree.map (·.1)) : tree.lookup rel ≠ none := by
  rw [ne_eq, List.lookup_eq_none_iff]
  obtain ⟨f, hf, rfl⟩ := List.mem_map.mp h
  intro hall
  simpa using hall f hf

/-- The files that differ are the visited ones that are not the same in both trees. -/
theorem Visits.differs_iff (h : Visits previous candidate visit) {rel : Text} :
    Differs previous candidate rel ↔ rel ∈ visit ∧ sameFile previous candidate rel = false := by
  rw [← Bool.not_eq_true, sameFile_iff]
  constructor
  · intro hdiffers
    refine ⟨?_, fun ⟨b, hold, hnew⟩ => hdiffers (hold.trans hnew.symm)⟩
    rw [h rel]
    by_contra hneither
    rw [not_or] at hneither
    exact hdiffers ((lookup_eq_none_of_not_mem hneither.1).trans (lookup_eq_none_of_not_mem hneither.2).symm)
  · rintro ⟨hvisited, hsame⟩ heq
    rcases (h rel).mp hvisited with hmem | hmem
    · obtain ⟨b, hb⟩ := Option.ne_none_iff_exists'.mp (lookup_ne_none_of_mem hmem)
      exact hsame ⟨b, hb, heq.symm.trans hb⟩
    · obtain ⟨b, hb⟩ := Option.ne_none_iff_exists'.mp (lookup_ne_none_of_mem hmem)
      exact hsame ⟨b, heq.trans hb, hb⟩

/-- The comparison gives up exactly where a path that differs has no consumer. -/
theorem Visits.diff_eq_none (h : Visits previous candidate visit) :
    diff table previous candidate visit (fun _ => none) = none ↔ ∃ rel, Differs previous candidate rel ∧ consumerIn table rel = none := by
  rw [Composectl.diff_eq_none]
  refine exists_congr fun rel => ?_
  rw [h.differs_iff, and_assoc]

/-- What a service reads is told along any visit of the paths. -/
theorem Visits.reads_iff (h : Visits previous candidate visit) {s : Service} {how : How} :
    Reads table previous candidate s how ↔
      ∃ rel ∈ visit, sameFile previous candidate rel = false ∧ consumerIn table rel = some (s, how) := by
  refine exists_congr fun rel => ?_
  rw [h.differs_iff, and_assoc]

/-- Whatever the order of the visit, the loop ends with what is owed to each service. -/
theorem Visits.owed (h : Visits previous candidate visit) {changed : Changed}
    (hdiff : diff table previous candidate visit (fun _ => none) = some changed) (s : Service) :
    Owed table previous candidate changed s := by
  obtain ⟨hrecreate, hnone⟩ := diff_exact hdiff s
  have hrec : changed s = some .recreate ↔ Reads table previous candidate s .recreate := by
    rw [hrecreate, h.reads_iff]
    simp
  refine ⟨hrec, ?_⟩
  have huntouched : changed s = none ↔ ∀ how, ¬ Reads table previous candidate s how := by
    rw [hnone]
    simp only [h.reads_iff, true_and, not_exists, not_and]
    exact ⟨fun hall how rel hmem hsame => hall rel hmem hsame how, fun hall rel hmem hsame how => hall how rel hmem hsame⟩
  constructor
  · intro hmount
    have hnot : ¬ Reads table previous candidate s .recreate := fun hreads => by
      rw [hrec.mpr hreads] at hmount
      cases hmount
    refine ⟨?_, hnot⟩
    by_contra hno
    have : changed s = none := huntouched.mpr fun how => by
      cases how with
      | mount => exact hno
      | recreate => exact hnot
    rw [this] at hmount
    cases hmount
  · rintro ⟨hreads, hnot⟩
    cases hs : changed s with
    | none => exact absurd hreads (huntouched.mp hs .mount)
    | some how =>
      cases how with
      | mount => rfl
      | recreate => exact absurd (hrec.mp hs) hnot

/-- What is owed settles what the map has for every service. -/
theorem Owed.unique {a b : Changed} (ha : ∀ s, Owed table previous candidate a s) (hb : ∀ s, Owed table previous candidate b s) :
    a = b := by
  funext s
  have hrecreate : a s = some .recreate ↔ b s = some .recreate := (ha s).recreate.trans (hb s).recreate.symm
  have hmount : a s = some .mount ↔ b s = some .mount := (ha s).mount.trans (hb s).mount.symm
  cases hbs : b s with
  | none =>
    cases has : a s with
    | none => rfl
    | some how =>
      rw [hbs] at hrecreate hmount
      cases how with
      | mount => exact (Option.some_ne_none _ (hmount.mp has).symm).elim
      | recreate => exact (Option.some_ne_none _ (hrecreate.mp has).symm).elim
  | some how =>
    cases how with
    | mount => exact hmount.mpr hbs
    | recreate => exact hrecreate.mpr hbs

/-- Two visits of the same files end alike. -/
theorem Visits.diff_eq {visit' : List Text} (h : Visits previous candidate visit) (h' : Visits previous candidate visit') :
    diff table previous candidate visit (fun _ => none) = diff table previous candidate visit' (fun _ => none) := by
  cases hdiff : diff table previous candidate visit (fun _ => none) with
  | none => exact (h'.diff_eq_none.mpr (h.diff_eq_none.mp hdiff)).symm
  | some changed =>
    cases hdiff' : diff table previous candidate visit' (fun _ => none) with
    | none =>
      rw [h.diff_eq_none.mpr (h'.diff_eq_none.mp hdiff')] at hdiff
      cases hdiff
    | some changed' => rw [Owed.unique (h.owed hdiff) (h'.owed hdiff')]

theorem visits_append : Visits previous candidate (previous.map (·.1) ++ candidate.map (·.1)) :=
  fun _ => List.mem_append

end Trees

/-! ## What vpnctl renders -/

/-- Every path a protocol renders is one of these, and has a reader. -/
theorem consumer_of_render {py : CaseMap} {p : Protocol} (hp : p ∈ protocols py) {secrets : Secrets} {users : List User}
    {files : Tree} (h : p.render secrets users = .ok files) : ∀ rel ∈ files.map (·.1), consumer rel ≠ none := by
  simp only [protocols, List.mem_cons, List.not_mem_nil, or_false] at hp
  rcases hp with rfl | rfl | rfl | rfl
  · obtain ⟨key, shortId, rfl⟩ := VlessReality.render_eq_ok h
    show ∀ rel ∈ ["sing-box/10_vless-reality.json".toList], consumer rel ≠ none
    decide
  · obtain ⟨obfs, crt, key, rfl⟩ := Hysteria2.render_eq_ok h
    show ∀ rel ∈ ["sing-box/20_hysteria2.json".toList, "sing-box/certs/certificate.pem".toList,
      "sing-box/certs/private.key".toList], consumer rel ≠ none
    decide
  · obtain ⟨-, psk, primaryUser, primaryPassword, -, -, -, rfl⟩ := Ikev2.render_eq_ok.mp h
    show ∀ rel ∈ ["ikev2.env".toList], consumer rel ≠ none
    decide
  · rw [Dnstt.render_names h]
    decide

/-- Every path that is rendered has a consumer. -/
theorem Rendered.consumer_ne_none {py : CaseMap} {tree : Tree} (h : Rendered py tree) {rel : Text}
    (hrel : rel ∈ tree.map (·.1)) : consumer rel ≠ none := by
  obtain ⟨secrets, common, users, enabled, henabled, hbuild⟩ := h
  obtain ⟨_, -, hadd⟩ := Except.bind_eq_ok.mp hbuild
  obtain ⟨-, -, hfrom, -⟩ := addProtocols_eq_ok hadd
  obtain ⟨f, hf, rfl⟩ := List.mem_map.mp hrel
  rcases hfrom f hf with hcommon | ⟨p, hp, files, hfiles, hmem⟩
  · obtain ⟨file, -, rfl⟩ := List.mem_map.mp hcommon
    rw [consumer_singBox]
    exact Option.some_ne_none _
  · exact consumer_of_render (henabled p hp) hfiles f.1 (List.mem_map_of_mem hmem)

/-! ## The result -/

/-- Whatever the table of consumers, `changed_services` answers `None` exactly without a previous tree or for a file nobody is known to read; otherwise it
has each service with the strongest action one of its changed files asks for, in whatever order they were visited. By the table there
is, two trees vpnctl rendered never make it answer `None`. -/
theorem changedServices_exact (py : CaseMap) (table : List (Text × Service × How)) (previous : Option Tree) (candidate : Tree) :
    (changedServicesIn table previous candidate = none ↔
      previous = none ∨ ∃ tree rel, previous = some tree ∧ Differs tree candidate rel ∧ consumerIn table rel = none) ∧
    (∀ changed, changedServicesIn table previous candidate = some changed →
      ∃ tree, previous = some tree ∧ ∀ s, Owed table tree candidate changed s) ∧
    (∀ tree visit, previous = some tree → Visits tree candidate visit →
      diff table tree candidate visit (fun _ => none) = changedServicesIn table previous candidate) ∧
    (∀ tree, Rendered py tree → ∀ rel ∈ tree.map (·.1), consumer rel ≠ none) ∧
    (∀ tree, previous = some tree → Rendered py tree → Rendered py candidate →
      changedServices previous candidate ≠ none) := by
  have hnone : ∀ table, changedServicesIn table previous candidate = none ↔
      previous = none ∨ ∃ tree rel, previous = some tree ∧ Differs tree candidate rel ∧ consumerIn table rel = none := by
    intro table
    cases previous with
    | none => exact ⟨fun _ => .inl rfl, fun _ => rfl⟩
    | some tree =>
      refine visits_append.diff_eq_none.trans ⟨fun ⟨rel, h⟩ => .inr ⟨tree, rel, rfl, h⟩, ?_⟩
      rintro (h | ⟨_, rel, ⟨⟩, h⟩)
      · cases h
      · exact ⟨rel, h⟩
  refine ⟨hnone table, ?_, ?_, fun tree htree rel hrel => htree.consumer_ne_none hrel, ?_⟩
  · intro changed h
    cases previous with
    | none => cases h
    | some tree => exact ⟨tree, rfl, visits_append.owed h⟩
  · rintro tree visit rfl hvisits
    exact hvisits.diff_eq visits_append
  · rintro tree rfl htree hcandidate h
    rcases (hnone consumers).mp h with h | ⟨_, rel, ⟨⟩, hdiffers, hconsumer⟩
    · cases h
    · rcases List.mem_append.mp (visits_append.differs_iff.mp hdiffers).1 with hmem | hmem
      · exact htree.consumer_ne_none hmem hconsumer
      · exact hcandidate.consumer_ne_none hmem hconsumer

/-- A keyring with this certificate in it. -/
def keyringWith (crt : Bytes) : Secrets :=
  ⟨fun name => if name = "hysteria2.crt" then some crt else some (Text.encode "5f1c")⟩

/-- A rotated certificate: the diff of the two rendered trees can be taken, and has what is owed to every service. -/
theorem changedServices_exact_rotated :
    ∃ old new changed, Rendered .ascii old ∧ Rendered .ascii new ∧ changedServices (some old) new = some changed ∧
      ∀ s, Owed consumers old new changed s := by
  have hregistry : ∀ p ∈ [Hysteria2.protocol], p ∈ protocols .ascii := by simp [protocols]
  have hold : Rendered .ascii _ := ⟨keyringWith [1], [], [], [Hysteria2.protocol], hregistry, rfl⟩
  have hnew : Rendered .ascii _ := ⟨keyringWith [2], [], [], [Hysteria2.protocol], hregistry, rfl⟩
  obtain ⟨-, howed, -, -, htold⟩ := changedServices_exact .ascii consumers (some _) _
  obtain ⟨changed, hchanged⟩ := Option.ne_none_iff_exists'.mp (htold _ rfl hold hnew)
  obtain ⟨_, ⟨⟩, hall⟩ := howed changed hchanged
  exact ⟨_, _, changed, hold, hnew, hchanged, hall⟩

end Composectl

end VpnStack
