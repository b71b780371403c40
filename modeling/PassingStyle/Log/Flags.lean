import PassingStyle.Command
import PassingStyle.Log

/-!
# Flags for the log

One command for each named level sets the level below which records are not
written.
-/

namespace PassingStyle

open Text

namespace Level

/-- The named levels, as flags spell them. -/
def named : List (Text × Level) :=
  [("debug", debug), ("info", info), ("warn", warn), ("error", error)]

/-- **The flags that set the level.** `onLevel` says where a state keeps it. -/
def commands (onLevel : Level → σ → σ) : List (Text × Command σ ε) :=
  named.map fun (word, level) =>
    ("-log-" ++ word, {
      label := "-log-" ++ word
      action := some { run := fun _ state => (.ok (), onLevel level state) }
      description := "set log level to " ++ word })

end Level

/-- The log with another threshold. -/
def Log.setLevel (l : Level) (log : Log) : Log :=
  { log with threshold := l }

/-- **Setting the level of a log** by a command line of flags. -/
def Log.runFlags (words : List Text) (log : Log) : Except (CommandError Unit) Unit × Log :=
  ((Commands.standard ()).defineAll (Level.commands Log.setLevel)).1.run words log

end PassingStyle
