import Mathlib.Data.List.Sort

/-! # The command line

The logger's filter is a list of `env_logger` directives, a module path (or none, for every
module) and a level each. `from_default_env` inserts those parsed from `RUST_LOG`, whose
regular-expression filter is left out; without `RUST_LOG`, `filter_level` sets `warn` for
every module, and a log-level argument sets its own level the same way, so a module directive
of `RUST_LOG` survives `--verbose` and `--quiet`. These two give `info` and `warn`, where
their help texts say "debug" and "error".

`selected_command` looks a manual page up among the built command's subcommands by the name
clap derives, and `run` unwraps the result; the shell completion page is looked up as
`shell-comletion`, so `daisyway manpage shell-completion` panics.
-/

set_option autoImplicit false

namespace Daisyway.CommandLine

inductive LogLevel
  | nothing
  | error
  | warn
  | info
  | debug
  | trace
deriving DecidableEq, Repr

inductive LevelFilter
  | off
  | error
  | warn
  | info
  | debug
  | trace
deriving DecidableEq, Repr

/-- `From<LogLevel> for log::LevelFilter`. -/
def LogLevel.toLevelFilter : LogLevel → LevelFilter
  | .nothing => .off
  | .error => .error
  | .warn => .warn
  | .info => .info
  | .debug => .debug
  | .trace => .trace

def LevelFilter.rank : LevelFilter → ℕ
  | .off => 0
  | .error => 1
  | .warn => 2
  | .info => 3
  | .debug => 4
  | .trace => 5

/-- The log-level arguments of `Cli`, of which clap's `log-level` group lets at most one
through. -/
structure Cli where
  logLevel : Option LogLevel
  verbose : Bool
  quiet : Bool
  logLevelGroup : (verbose && quiet) = false ∧ ((verbose || quiet) && logLevel.isSome) = false

def Cli.logLevelFilter (cli : Cli) : Option LevelFilter :=
  if cli.verbose then some .info
  else if cli.quiet then some .warn
  else cli.logLevel.map LogLevel.toLevelFilter

example (cli : Cli) (h : cli.verbose = true) : cli.logLevelFilter = some .info := by
  simp [Cli.logLevelFilter, h]

example (cli : Cli) (h : cli.quiet = true) : cli.logLevelFilter = some .warn := by
  have hv : cli.verbose = false := by simpa [h] using cli.logLevelGroup.1
  simp [Cli.logLevelFilter, h, hv]

/-! ## The logger's filter -/

structure Directive where
  name : Option String
  level : LevelFilter
deriving DecidableEq, Repr

def Directive.nameLength (d : Directive) : ℕ := (d.name.map String.length).getD 0

/-- Whether a directive covers the records of `target`: `target.starts_with(name)`. -/
def Directive.covers (target : String) (d : Directive) : Bool :=
  match d.name with
  | none => true
  | some name => name.toList.isPrefixOf target.toList

/-- `Builder::insert_directive`: a directive takes the place of the first one of the same
name, or is appended. -/
def insertDirective : List Directive → Directive → List Directive
  | [], d => [d]
  | d' :: ds, d => if d'.name = d.name then d :: ds else d' :: insertDirective ds d

def filterLevel (ds : List Directive) (level : LevelFilter) : List Directive :=
  insertDirective ds ⟨none, level⟩

/-- `Builder::from_default_env`; `rustLog` is what `env_logger` parses from `RUST_LOG`, `none`
where the variable cannot be read. -/
def fromDefaultEnv (rustLog : Option (List Directive)) : List Directive :=
  (rustLog.getD []).foldl insertDirective []

/-- The directives `Cli::init_logging` leaves the builder with. -/
def Cli.initLogging (cli : Cli) (rustLog : Option (List Directive)) : List Directive :=
  let logBuilder := fromDefaultEnv rustLog
  let logBuilder := if rustLog.isNone then filterLevel logBuilder .warn else logBuilder
  match cli.logLevelFilter with
  | some filter => filterLevel logBuilder filter
  | none => logBuilder

/-- `Builder::build`: with no directive, `error` for every module; otherwise the directives
in the order of the lengths of their names. -/
def build (ds : List Directive) : List Directive :=
  if ds = [] then [⟨none, .error⟩] else ds.insertionSort fun a b => a.nameLength ≤ b.nameLength

/-- Whether the built filter shows a record of `level` from `target`: the last directive that
covers `target` decides. -/
def enabled (built : List Directive) (level : LevelFilter) (target : String) : Bool :=
  match built.reverse.find? (Directive.covers target) with
  | some d => decide (level.rank ≤ d.level.rank)
  | none => false

theorem mem_insertDirective {ds : List Directive} {x d : Directive}
    (h : d ∈ insertDirective ds x) : d = x ∨ d ∈ ds := by
  induction ds with
  | nil => exact .inl (List.mem_singleton.mp h)
  | cons d' ds ih =>
    unfold insertDirective at h
    split_ifs at h
    · rcases List.mem_cons.mp h with rfl | h
      exacts [.inl rfl, .inr (List.mem_cons_of_mem _ h)]
    · rcases List.mem_cons.mp h with rfl | h
      · exact .inr (List.mem_cons_self _ _)
      · exact (ih h).imp_right (List.mem_cons_of_mem _)

theorem map_name_insertDirective (ds : List Directive) (x : Directive) :
    (insertDirective ds x).map Directive.name =
      if x.name ∈ ds.map Directive.name then ds.map Directive.name
      else ds.map Directive.name ++ [x.name] := by
  induction ds with
  | nil => rfl
  | cons d' ds ih =>
    by_cases hd : d'.name = x.name
    · simp [insertDirective, hd]
    · by_cases hm : x.name ∈ ds.map Directive.name <;>
        simp [insertDirective, hd, ih, hm, Ne.symm hd]

theorem nodup_insertDirective {ds : List Directive} (h : (ds.map Directive.name).Nodup)
    (x : Directive) : ((insertDirective ds x).map Directive.name).Nodup := by
  rw [map_name_insertDirective]
  split_ifs with hm
  · exact h
  · exact h.append (List.nodup_singleton _) (List.disjoint_singleton.mpr hm)

theorem filter_unnamed_filterLevel {ds : List Directive} (h : (ds.map Directive.name).Nodup)
    (level : LevelFilter) :
    (filterLevel ds level).filter (·.name = none) = [⟨none, level⟩] := by
  induction ds with
  | nil => rfl
  | cons d' ds ih =>
    rw [List.map_cons, List.nodup_cons] at h
    by_cases hd : d'.name = none
    · have hds : ds.filter (·.name = none) = [] :=
        List.filter_eq_nil_iff.mpr fun d hm hn =>
          h.1 (hd ▸ of_decide_eq_true hn ▸ List.mem_map_of_mem _ hm)
      simp [filterLevel, insertDirective, hd, hds]
    · simpa [filterLevel, insertDirective, hd] using ih h.2

theorem nodup_foldl_insertDirective :
    ∀ (l acc : List Directive), (acc.map Directive.name).Nodup →
      ((l.foldl insertDirective acc).map Directive.name).Nodup
  | [], _, h => h
  | x :: l, _, h => nodup_foldl_insertDirective l _ (nodup_insertDirective h x)

theorem mem_foldl_insertDirective {d : Directive} :
    ∀ (l acc : List Directive), d ∈ l.foldl insertDirective acc → d ∈ acc ∨ d ∈ l
  | [], _, h => .inl h
  | x :: l, acc, h => by
    rcases mem_foldl_insertDirective l _ h with h | h
    · rcases mem_insertDirective h with rfl | h
      exacts [.inr (List.mem_cons_self _ _), .inl h]
    · exact .inr (List.mem_cons_of_mem _ h)

theorem envDirectives_spec (rustLog : Option (List Directive)) :
    ((if rustLog.isNone then filterLevel (fromDefaultEnv rustLog) .warn
      else fromDefaultEnv rustLog).map Directive.name).Nodup ∧
    ∀ d ∈ (if rustLog.isNone then filterLevel (fromDefaultEnv rustLog) .warn
      else fromDefaultEnv rustLog), d.name ≠ none → d ∈ rustLog.getD [] := by
  have hnd := nodup_foldl_insertDirective (rustLog.getD []) [] List.nodup_nil
  have hmem : ∀ d ∈ fromDefaultEnv rustLog, d ∈ rustLog.getD [] := fun d hd =>
    (mem_foldl_insertDirective _ [] hd).resolve_left (List.not_mem_nil d)
  split_ifs
  · refine ⟨nodup_insertDirective hnd _, fun d hd hn => ?_⟩
    rcases mem_insertDirective hd with rfl | hd
    exacts [absurd rfl hn, hmem d hd]
  · exact ⟨hnd, fun d hd _ => hmem d hd⟩

theorem enabled_build_of_filter {ds : List Directive} {target : String} {d : Directive}
    (h : ds.filter (Directive.covers target) = [d]) (level : LevelFilter) :
    enabled (build ds) level target = decide (level.rank ≤ d.level.rank) := by
  have hne : ds ≠ [] := by rintro rfl; cases h
  have hsorted : (build ds).filter (Directive.covers target) = [d] := by
    rw [build, if_neg hne, ← List.perm_singleton, ← h]
    exact (List.perm_insertionSort _ ds).filter _
  rw [enabled, ← List.filter_head?, List.filter_reverse, hsorted]
  rfl

/-- With a log-level argument, the records of a module that no named directive of
`RUST_LOG` covers show exactly up to the argument's level: the argument replaces only
`RUST_LOG`'s level for every module. -/
theorem Cli.enabled_initLogging (cli : Cli) (rustLog : Option (List Directive))
    {filter : LevelFilter} (hf : cli.logLevelFilter = some filter) (target : String)
    (hno : ∀ d ∈ rustLog.getD [], d.name ≠ none → d.covers target = false)
    (level : LevelFilter) :
    enabled (build (cli.initLogging rustLog)) level target = decide (level.rank ≤ filter.rank) := by
  obtain ⟨hnd, hnamed⟩ := envDirectives_spec rustLog
  have hcovers : (cli.initLogging rustLog).filter (Directive.covers target) = [⟨none, filter⟩] := by
    simp only [Cli.initLogging, hf]
    rw [← filter_unnamed_filterLevel hnd filter]
    refine List.filter_congr fun d hd => ?_
    cases hn : d.name with
    | none => simp [Directive.covers, hn]
    | some name =>
      rcases mem_insertDirective hd with rfl | hd
      · cases hn
      · simpa [hn] using hno d (hnamed d hd (by simp [hn])) (by simp [hn])
  exact enabled_build_of_filter hcovers level

/-- `RUST_LOG=daisyway=debug` and `--verbose`: the daemon's debug records still show. -/
example : enabled (build (Cli.initLogging ⟨none, true, false, rfl, rfl⟩
    (some [⟨some "daisyway", .debug⟩]))) .debug "daisyway::internal" = true := by
  decide

/-! ## The manual pages -/

inductive Commands
  | exchange
  | manpage
  | exportManpages
  | shellCompletion
deriving DecidableEq, Repr

/-- The name clap derives for a subcommand: its variant's name in kebab case. -/
def Commands.name : Commands → String
  | .exchange => "exchange"
  | .manpage => "manpage"
  | .exportManpages => "export-manpages"
  | .shellCompletion => "shell-completion"

/-- The subcommands of `Cli::command()` once `build` has run: those of `Commands`, and the
`help` that clap adds to a command with subcommands. -/
def builtSubcommands : List String :=
  [Commands.exchange.name, Commands.manpage.name, Commands.exportManpages.name,
    Commands.shellCompletion.name, "help"]

def findSubcommand (name : String) : Option String :=
  builtSubcommands.find? (· == name)

inductive ManpageSelection
  | daisyway
  | exchange
  | manpage
  | exportManpages
  | shellCompletion
  | help
deriving DecidableEq, Repr

/-- `ManpageCommand::selected_command`, by the name of the command found; `daisyway` is the
top-level command itself. `run` unwraps it, so `none` is a panic. -/
def ManpageCommand.selectedCommand : ManpageSelection → Option String
  | .daisyway => some "daisyway"
  | .exchange => findSubcommand "exchange"
  | .manpage => findSubcommand "manpage"
  | .exportManpages => findSubcommand "export-manpages"
  | .shellCompletion => findSubcommand "shell-comletion"
  | .help => findSubcommand "help"

def ManpageSelection.command : ManpageSelection → String
  | .daisyway => "daisyway"
  | .exchange => Commands.exchange.name
  | .manpage => Commands.manpage.name
  | .exportManpages => Commands.exportManpages.name
  | .shellCompletion => Commands.shellCompletion.name
  | .help => "help"

example (selection : ManpageSelection) :
    ManpageCommand.selectedCommand selection =
      if selection = .shellCompletion then none else some selection.command := by
  cases selection <;> rfl

end Daisyway.CommandLine
