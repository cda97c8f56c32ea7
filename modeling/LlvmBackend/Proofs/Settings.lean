import LlvmBackend.Build.Settings

/-! # Where settings come from

What the user gave counts before what the project says, and that before the default. This holds of
every setting but for one case: a given entry, directory or compiler that is the default gives way to
the project. Main statement: `BuildRequest.settings_from`.
-/

namespace LlvmBackend

namespace BuildSettings

/-- A given value that counts as left open: it is the default, and the project has another one. -/
def Hidden (given : Option String) (default : String) (project : Option String) : Prop :=
  given = some default ∧ ∃ other ∈ project, other ≠ default

/-- A given value is taken, and else the project's or the default, unless it is hidden. -/
theorem orProject_eq_iff (given : Option String) (default : String) (project : Option String) :
    orProject (given.getD default) default project = given.getD (project.getD default) ↔
      ¬ Hidden given default project := by
  cases given with
  | none => simp [orProject, Hidden]
  | some value =>
      by_cases same : value = default
      · cases project with
        | none => simp [orProject, Hidden, same]
        | some other => simp [orProject, Hidden, same]
      · simp [orProject, Hidden, same]

end BuildSettings

namespace BuildRequest

open BuildSettings (Hidden)

/-- Where the settings of a build come from. -/
structure Sources (request : BuildRequest) (project : Option Project) (settings : BuildSettings) :
    Prop where
  typesFile : settings.typesFile = request.types.or (project.bind (·.build.typesFile))
  includeFile : settings.includeFile = request.preamble.or (project.bind (·.build.includeFile))
  platform : settings.platform = request.platform.or (project.bind (·.build.platform))
  runtime : settings.runtimeObjects =
    if request.runtime ≠ [] then request.runtime
    else (project.map (·.build.runtime)).getD []
  entry : settings.entry =
      request.entry.getD ((project.bind (·.build.entry)).getD "__main__") ↔
    ¬ Hidden request.entry "__main__" (project.bind (·.build.entry))
  outputDir : settings.outputDir =
      request.outputDir.getD ((project.map (·.build.outputDir)).getD "build") ↔
    ¬ Hidden request.outputDir "build" (project.map (·.build.outputDir))
  cc : settings.cc = request.cc.getD ((project.bind (·.build.cc)).getD "clang") ↔
    ¬ Hidden request.cc "clang" (project.bind (·.build.cc))

variable {request : BuildRequest} {dumps : List DumpKind} {file : String}

theorem sources_explicit : Sources request none (request.explicitSettings dumps file) where
  typesFile := by simp [explicitSettings]
  includeFile := by simp [explicitSettings]
  platform := by simp [explicitSettings]
  runtime := by simp [explicitSettings]
  entry := by simp [explicitSettings, Hidden]
  outputDir := by simp [explicitSettings, Hidden]
  cc := by simp [explicitSettings, Hidden]

theorem sources_merged (project : Project) :
    Sources request (some project)
      ((request.explicitSettings dumps file).merge project.build) where
  typesFile := rfl
  includeFile := rfl
  platform := rfl
  runtime := by simp [explicitSettings, BuildSettings.merge]
  entry := BuildSettings.orProject_eq_iff request.entry "__main__" project.build.entry
  outputDir := BuildSettings.orProject_eq_iff request.outputDir "build" (some project.build.outputDir)
  cc := BuildSettings.orProject_eq_iff request.cc "clang" project.build.cc

/-- Settings come from the request, the project and the defaults, in this order, except for values
    that are hidden. -/
theorem settings_from {project : Option Project} {settings : BuildSettings}
    (found : request.settings? dumps project = some settings) :
    Sources request project settings := by
  obtain ⟨file, _, found⟩ := Option.bind_eq_some_iff.mp found
  -- The name of the executable is told from the settings and is none of them.
  have built {merged : BuildSettings} (sources : Sources request project merged)
      (found : (if .bin ∈ request.emit then
        some { merged with emitBin := some s!"{merged.outputDir}/{request.binName project file}" }
        else some merged) = some settings) : Sources request project settings := by
    split at found
    · cases found
      exact { sources with }
    · cases found
      exact sources
  cases project with
  | none => exact built sources_explicit found
  | some project => exact built (sources_merged project) found

-- The directory `build` is given, and the code goes where the project says.
example :
    let request : BuildRequest := { outputDir := some "build" }
    let project : Project := ⟨"proj", "0.1.0", { mainFile := "m.json", outputDir := "out" }⟩
    (request.settings? [] (some project)).map (·.outputDir) = some "out" := rfl

end BuildRequest

end LlvmBackend
