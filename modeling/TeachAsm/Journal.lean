import TeachAsm.Text.CodePoint

/-!
# Journal

What the program notes about its own work, beside its answers. A record has a level, the part of
the program it comes from, and a message.
-/

namespace TeachAsm

inductive Level where
  | debug
  | info
  | warning
  | error
deriving DecidableEq, Repr

def Level.name : Level → String
  | debug => "DEBUG"
  | info => "INFO"
  | warning => "WARNING"
  | error => "ERROR"

inductive Channel where
  | symbols
  | memory
  | analysis
  | settings
  | server
deriving DecidableEq, Repr

def Channel.name : Channel → String
  | symbols => "pdp8_lsp.analyzer.symbols"
  | memory => "pdp8_lsp.analyzer.memory"
  | analysis => "pdp8_lsp.analyzer.analyzer"
  | settings => "pdp8_lsp.config"
  | server => "pdp8_lsp.server.server"

structure Record where
  level : Level
  channel : Channel
  message : Text
deriving DecidableEq, Repr

namespace Record

/-- Warnings and errors are always shown, the other levels only to those who ask for detail. -/
def isShown (detail : Bool) (r : Record) : Bool :=
  detail || r.level = .warning || r.level = .error

def line (r : Record) : String :=
  r.level.name ++ " " ++ r.channel.name ++ ": " ++ r.message.written

end Record

end TeachAsm
