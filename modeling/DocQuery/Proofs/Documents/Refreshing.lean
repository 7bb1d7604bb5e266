import DocQuery.Proofs.Documents.Names

/-!
# DocQuery.Proofs.Documents.Refreshing — reading registered files again

A refresh reads the registered files one after the other and puts each table in the place of the one
that its name had, up to the first file that fails.  So after a success every table is the one that
its file makes now, and after a failure the tables of the files before the failing one are new and the
others are old (`Store.refresh_upToFailure`).  That is all or nothing exactly where those files make
the tables that were there already; in general it is not (`Store.not_refreshesWhole_secondMissing`).
-/

namespace DocQuery

namespace Store

variable {files : Files} {sources before after : List TableSource} {source : TableSource}
  {tables old loaded rest : List (String × LoadedTable)} {e : Failure}

/-! ## Tables that files make now -/

/-- The tables are those that the files make now, each under the name of its file. -/
def AreCurrent (files : Files) (sources : List TableSource) (tables : List (String × LoadedTable)) :
    Prop :=
  List.Forall₂ (fun source entry => entry.1 = source.name ∧ source.load files = .ok entry.2) sources
    tables

/-- A file that loads has its table among those that the files make. -/
theorem AreCurrent.exists_mem (h : AreCurrent files sources tables) (hsource : source ∈ sources) :
    ∃ t, source.load files = .ok t ∧ (source.name, t) ∈ tables := by
  induction h with
  | nil => cases hsource
  | @cons other entry _ _ hentry _ ih =>
    rcases List.mem_cons.mp hsource with rfl | hmem
    · exact ⟨entry.2, hentry.2, hentry.1 ▸ List.mem_cons_self⟩
    · obtain ⟨t, ht, hin⟩ := ih hmem
      exact ⟨t, ht, List.mem_cons_of_mem _ hin⟩

/-- A table that the files make is that of one of them. -/
theorem AreCurrent.exists_source (h : AreCurrent files sources tables)
    {entry : String × LoadedTable} (hentry : entry ∈ tables) :
    ∃ source ∈ sources, entry.1 = source.name ∧ source.load files = .ok entry.2 := by
  induction h with
  | nil => cases hentry
  | cons hhead _ ih =>
    rcases List.mem_cons.mp hentry with rfl | hmem
    · exact ⟨_, List.mem_cons_self, hhead⟩
    · obtain ⟨source, hsource, hmade⟩ := ih hmem
      exact ⟨source, List.mem_cons_of_mem _ hsource, hmade⟩

/-- Either all files load, or there is a first one that fails. -/
theorem areCurrent_or_failed (files : Files) (sources : List TableSource) :
    (∃ tables, AreCurrent files sources tables) ∨
      ∃ before source after tables e, sources = before ++ source :: after ∧
        AreCurrent files before tables ∧ source.load files = .error e := by
  induction sources with
  | nil => exact Or.inl ⟨[], .nil⟩
  | cons source rest ih =>
    cases hload : source.load files with
    | error e => exact Or.inr ⟨[], source, rest, [], e, rfl, .nil, hload⟩
    | ok t =>
      rcases ih with ⟨tables, htables⟩ | ⟨before, failing, after, tables, e, rfl, htables, he⟩
      · exact Or.inl ⟨(source.name, t) :: tables, .cons ⟨rfl, hload⟩ htables⟩
      · exact Or.inr ⟨source :: before, failing, after, (source.name, t) :: tables, e, rfl,
          .cons ⟨rfl, hload⟩ htables, he⟩

/-! ## Reading again -/

/-- A table takes the place of the one that its name had. -/
theorem put_of_nodup {name : String} {was t : LoadedTable}
    (hnames : ((old ++ (name, was) :: rest).map (·.1)).Nodup) :
    put (old ++ (name, was) :: rest) name t = old ++ (name, t) :: rest := by
  rw [List.map_append, List.map_cons, List.nodup_middle, List.nodup_cons, ← List.map_append] at hnames
  have hkept (part : List (String × LoadedTable)) (hpart : ∀ entry ∈ part, entry ∈ old ++ rest) :
      part.map (fun entry => if entry.1 == name then (name, t) else entry) = part := by
    refine (List.map_congr_left fun entry hentry => if_neg fun heq => hnames.1 ?_).trans
      (List.map_id part)
    exact List.mem_map.mpr ⟨entry, hpart entry hentry, beq_iff_eq.mp heq⟩
  have hthere : (old ++ (name, was) :: rest).any (·.1 == name) = true :=
    (any_key_iff _ _).mpr (by simp)
  unfold put
  rw [if_pos hthere, List.map_append, List.map_cons,
    hkept old fun _ => List.mem_append_left _, hkept rest fun _ => List.mem_append_right _]
  simp

/-- **Files that load take the places of their tables**, and reading goes on behind them. -/
theorem reload_of_areCurrent (done rest : List (String × LoadedTable)) (after : List TableSource)
    (h : AreCurrent files before loaded) (hold : old.map (·.1) = before.map (·.name))
    (hnames : ((done ++ (old ++ rest)).map (·.1)).Nodup) :
    reload files (done ++ (old ++ rest)) (before ++ after) =
      reload files (done ++ (loaded ++ rest)) after := by
  induction h generalizing done old with
  | nil =>
    rw [List.map_nil, List.map_eq_nil_iff] at hold
    rw [hold]
    rfl
  | @cons source entry before loaded hentry _ ih =>
    obtain ⟨name, t⟩ := entry
    obtain ⟨rfl, hload⟩ := hentry
    cases old with
    | nil => cases hold
    | cons first old =>
      obtain ⟨name, was⟩ := first
      rw [List.map_cons, List.map_cons, List.cons.injEq] at hold
      obtain ⟨rfl, hold⟩ := hold
      rw [List.cons_append] at hnames ⊢
      rw [List.cons_append, reload, hload]
      show reload files (put _ _ t) _ = _
      rw [put_of_nodup hnames]
      -- The table just read joins those that are done; its name is the one that was there.
      have hnames' : (((done ++ [(source.name, t)]) ++ (old ++ rest)).map (·.1)).Nodup := by
        simpa using hnames
      have hrest := ih (done ++ [(source.name, t)]) hold hnames'
      simpa using hrest

/-- The first tables of a store are those of its first files. -/
theorem InStep.names_take {s : Store} (h : s.InStep) (hsources : s.sources = before ++ after) :
    (s.tables.take before.length).map (·.1) = before.map (·.name) := by
  rw [List.map_take, h.keys, names, hsources, List.map_append, List.take_left' (List.length_map _)]

section Refresh

variable {s : Store} (hstep : s.InStep) (hsound : AreSound s.tables)

include hstep hsound

/-- **Where all files load,** the tables are those that they make now. -/
theorem refresh_of_areCurrent (h : AreCurrent files s.sources tables) :
    s.refresh files = (⟨s.sources, tables⟩, .ok ()) := by
  have hold : s.tables.map (·.1) = s.sources.map (·.name) := hstep.keys
  have hread := reload_of_areCurrent [] [] [] h hold (by simpa using hsound.names)
  unfold refresh
  simp only [List.nil_append, List.append_nil] at hread
  rw [hread]
  rfl

/-- **Where a file fails,** the tables of the files before it are those that they make now, and the
others stay. -/
theorem refresh_of_failed (hsources : s.sources = before ++ source :: after)
    (h : AreCurrent files before tables) (he : source.load files = .error e) :
    s.refresh files = (⟨s.sources, tables ++ s.tables.drop before.length⟩, .error e) := by
  have hcut := List.take_append_drop before.length s.tables
  have hread := reload_of_areCurrent [] (s.tables.drop before.length) (source :: after) h
    (hstep.names_take hsources) (by simpa [hcut] using hsound.names)
  unfold refresh
  simp only [List.nil_append, hcut, ← hsources] at hread
  rw [hread, reload, he]

end Refresh

/-! ## What names find afterwards -/

theorem InStep.find?_of_mem {s : Store} (h : s.InStep) {name : String} {t : LoadedTable}
    (hmem : (name, t) ∈ s.tables) : s.find? name = some t :=
  h.keysApart.find?_eq_some_iff.mpr ⟨(name, t), hmem, Text.sameName_self _, rfl⟩

theorem InStep.exists_mem {s : Store} (h : s.InStep) (hsource : source ∈ s.sources) :
    ∃ t, (source.name, t) ∈ s.tables := by
  have hname : source.name ∈ s.tables.map (·.1) := by
    rw [h.keys]
    exact List.mem_map_of_mem hsource
  obtain ⟨⟨name, t⟩, hmem, rfl⟩ := List.mem_map.mp hname
  exact ⟨t, hmem⟩

/-- The name of a registered file finds a table just if that is kept under it. -/
theorem InStep.find?_name_iff {s : Store} (h : s.InStep) (hsource : source ∈ s.sources)
    {t : LoadedTable} : s.find? source.name = some t ↔ (source.name, t) ∈ s.tables := by
  refine ⟨fun hfind => ?_, h.find?_of_mem⟩
  obtain ⟨t', hmem⟩ := h.exists_mem hsource
  rw [h.find?_of_mem hmem] at hfind
  exact Option.some.inj hfind ▸ hmem

/-- Entries under the same distinct keys that are all among the others are the others. -/
theorem eq_of_subset_of_keys {tables' : List (String × LoadedTable)}
    (hnodup : (tables'.map (·.1)).Nodup) (hkeys : tables.map (·.1) = tables'.map (·.1))
    (hsubset : tables ⊆ tables') : tables = tables' := by
  induction tables' generalizing tables with
  | nil => simpa using hkeys
  | cons entry' rest' ih =>
    cases tables with
    | nil => cases hkeys
    | cons entry rest =>
      rw [List.map_cons, List.map_cons, List.cons.injEq] at hkeys
      rw [List.map_cons, List.nodup_cons] at hnodup
      rw [List.cons_subset] at hsubset
      have hhead : entry = entry' := by
        refine (List.mem_cons.mp hsubset.1).resolve_right fun hmem => hnodup.1 ?_
        rw [← hkeys.1]
        exact List.mem_map_of_mem hmem
      refine List.cons_eq_cons.mpr ⟨hhead, ih hnodup.2 hkeys.2 fun other hother => ?_⟩
      refine (List.mem_cons.mp (hsubset.2 hother)).resolve_left fun heq => hnodup.1 ?_
      rw [← hkeys.2, ← heq]
      exact List.mem_map_of_mem hother

/-! ## Stores whose first tables are new -/

section Renewed

variable {s s' : Store} (hstep : s.InStep) (hstep' : s'.InStep)
  (hs' : s' = ⟨s.sources, tables ++ s.tables.drop before.length⟩)

include hs' in
theorem mem_renewed_iff {entry : String × LoadedTable} :
    entry ∈ s'.tables ↔ entry ∈ tables ∨ entry ∈ s.tables.drop before.length := by
  rw [hs', List.mem_append]

include hstep' hs' in
/-- The name of a file that was read again finds the table that it makes now. -/
theorem exists_find?_renewed (h : AreCurrent files before tables) (hsource : source ∈ before) :
    ∃ t, source.load files = .ok t ∧ s'.find? source.name = some t := by
  obtain ⟨t, ht, hmem⟩ := h.exists_mem hsource
  exact ⟨t, ht, hstep'.find?_of_mem ((mem_renewed_iff hs').mpr (Or.inl hmem))⟩

include hstep hstep' hs' in
/-- The name of a file behind those finds what it found before. -/
theorem find?_renewed_behind (hsources : s.sources = before ++ after) (hsource : source ∈ after) :
    s'.find? source.name = s.find? source.name := by
  have hin : source.name ∈ (s.tables.drop before.length).map (·.1) := by
    rw [List.map_drop, hstep.keys, names, hsources, List.map_append,
      List.drop_left' (List.length_map _)]
    exact List.mem_map_of_mem hsource
  obtain ⟨⟨name, t⟩, hmem, rfl⟩ := List.mem_map.mp hin
  rw [hstep'.find?_of_mem ((mem_renewed_iff hs').mpr (Or.inr hmem)),
    hstep.find?_of_mem (List.mem_of_mem_drop hmem)]

include hstep hstep' hs' in
/-- **Nothing has changed just if the files that were read make the tables that were there.** -/
theorem renewed_eq_iff (hsound : AreSound s.tables) (hsources : s.sources = before ++ after)
    (h : AreCurrent files before tables) :
    s' = s ↔ ∀ other ∈ before, ∀ t, other.load files = .ok t → s.find? other.name = some t := by
  constructor
  · intro hsame other hother t ht
    obtain ⟨t', ht', hfind⟩ := exists_find?_renewed hstep' hs' h hother
    obtain rfl : t' = t := Except.ok.inj (ht'.symm.trans ht)
    exact hsame ▸ hfind
  · intro hfound
    have hkeys : s'.tables.map (·.1) = s.tables.map (·.1) := by
      rw [hstep'.keys, hstep.keys, names, names, hs']
    have hsubset : s'.tables ⊆ s.tables := by
      intro entry hentry
      rcases (mem_renewed_iff hs').mp hentry with hentry | hentry
      case inr => exact List.mem_of_mem_drop hentry
      obtain ⟨other, hother, hname, ht⟩ := h.exists_source hentry
      have hmem : other ∈ s.sources := hsources ▸ List.mem_append_left _ hother
      rw [← Prod.eta entry, hname]
      exact (hstep.find?_name_iff hmem).mp (hfound other hother _ ht)
    have htables := eq_of_subset_of_keys hsound.names hkeys hsubset
    rw [hs'] at htables ⊢
    exact congrArg (Store.mk s.sources) htables

end Renewed

/-! ## Refreshing after any calls -/

/-- **After any calls, successful or not,** a refresh keeps the registered files.  If it succeeds, the
name of each file finds the table that the file makes now.  If it fails, there is a first file that
does not load, which gives the failure: the names of the files before it find the tables that these
make now, and its own name and those behind it find what they found before.  So nothing has changed
just if each of the files before it makes the table that its name found already. -/
theorem refresh_upToFailure (calls : List Call) (files : Files) :
    let s := afterAll calls
    let s' := (s.refresh files).1
    s'.sources = s.sources ∧
    ((s.refresh files).2 = .ok () → ∀ source ∈ s.sources, ∃ t,
      source.load files = .ok t ∧ s'.find? source.name = some t) ∧
    ∀ e, (s.refresh files).2 = .error e → ∃ before source after,
      s.sources = before ++ source :: after ∧ source.load files = .error e ∧
      (∀ other ∈ before, ∃ t, other.load files = .ok t ∧ s'.find? other.name = some t) ∧
      (∀ other ∈ source :: after, s'.find? other.name = s.find? other.name) ∧
      (s' = s ↔ ∀ other ∈ before, ∀ t, other.load files = .ok t →
        s.find? other.name = some t) := by
  intro s s'
  have hstep : s.InStep := inStep_afterAll calls
  have hsound : AreSound s.tables := (reached_afterAll calls).areSound
  have hstep' : s'.InStep := hstep.after (.refresh files)
  refine ⟨rfl, ?_⟩
  rcases areCurrent_or_failed files s.sources with
    ⟨tables, htables⟩ | ⟨before, source, after, tables, e, hsources, htables, he⟩
  case inl =>
    have hrefresh := refresh_of_areCurrent hstep hsound htables
    have hs' : s' = ⟨s.sources, tables⟩ := congrArg Prod.fst hrefresh
    rw [hrefresh]
    refine ⟨fun _ source hsource => ?_, fun e he => nomatch he⟩
    obtain ⟨t, ht, hmem⟩ := htables.exists_mem hsource
    exact ⟨t, ht, hstep'.find?_of_mem (hs' ▸ hmem)⟩
  case inr =>
    have hrefresh := refresh_of_failed hstep hsound hsources htables he
    have hs' : s' = ⟨s.sources, tables ++ s.tables.drop before.length⟩ := congrArg Prod.fst hrefresh
    rw [hrefresh]
    refine ⟨fun hok => (nomatch hok), ?_⟩
    rintro _ ⟨⟩
    exact ⟨before, source, after, hsources, he,
      fun _ hother => exists_find?_renewed hstep' hs' htables hother,
      fun _ hother => find?_renewed_behind hstep hstep' hs' hsources hother,
      renewed_eq_iff hstep hstep' hs' hsound hsources htables⟩

/-! ## Where it is neither all nor nothing -/

/-- Two files of one document each. -/
def twoFiles : Files := fun path =>
  if path = "a.json" ∨ path = "b.json" then .content "[\x7b\"n\":1\x7d]".toUTF8 else .missing

/-- The first file with one more document, and the second gone. -/
def secondMissing : Files := fun path =>
  if path = "a.json" then .content "[\x7b\"n\":1\x7d,\x7b\"n\":2\x7d]".toUTF8 else .missing

/-- Both files registered. -/
def bothRegistered : List Call :=
  [.register twoFiles { name := "a", path := "a.json" },
    .register twoFiles { name := "b", path := "b.json" }]

/-- **A refresh that fails at the second file has replaced the first table.** -/
theorem not_refreshesWhole_secondMissing :
    ((afterAll bothRegistered).refresh secondMissing).2 = .error .unreadable ∧
    ((afterAll bothRegistered).refresh secondMissing).1 ≠ afterAll bothRegistered := by
  have hold : (afterAll bothRegistered).rowCount "a" = .ok 1 := by decide +kernel
  have hnew : ((afterAll bothRegistered).refresh secondMissing).1.rowCount "a" = .ok 2 := by
    decide +kernel
  refine ⟨by decide +kernel, fun hsame => ?_⟩
  rw [hsame, hold] at hnew
  exact absurd hnew (by decide)

end Store

end DocQuery
