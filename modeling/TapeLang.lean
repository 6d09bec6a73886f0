import TapeLang.Cli.Command
import TapeLang.Cli.Flag
import TapeLang.Compile
import TapeLang.Config
import TapeLang.Config.File
import TapeLang.Console
import TapeLang.Files
import TapeLang.Files.Path
import TapeLang.Leb128
import TapeLang.Machine
import TapeLang.Main
import TapeLang.Optimize
import TapeLang.Optimize.Merge
import TapeLang.Optimize.Postpone
import TapeLang.Program
import TapeLang.Program.Parse
import TapeLang.Program.Text
import TapeLang.Proofs.Assemble
import TapeLang.Proofs.Grammar
import TapeLang.Proofs.Grammar.Instr
import TapeLang.Proofs.Instr
import TapeLang.Proofs.Leb128
import TapeLang.Proofs.Leb128.Forms
import TapeLang.Proofs.Load
import TapeLang.Proofs.Mirror
import TapeLang.Proofs.Parse
import TapeLang.Proofs.Offsets
import TapeLang.Proofs.Points
import TapeLang.Proofs.Postpone
import TapeLang.Proofs.Reach
import TapeLang.Proofs.Refine
import TapeLang.Proofs.Rewrite
import TapeLang.Proofs.Run
import TapeLang.Proofs.Targets
import TapeLang.Proofs.Translate
import TapeLang.Proofs.WordMachine
import TapeLang.Symbol
import TapeLang.Target
import TapeLang.Target.CSource
import TapeLang.Target.Module
import TapeLang.Text.Base64
import TapeLang.Text.Cut
import TapeLang.Text.Decimal
import TapeLang.Text.Numeral
import TapeLang.Text.Printable
import TapeLang.Text.Quoted
import TapeLang.Text.Utf8
import TapeLang.Wasm.Binary
import TapeLang.Wasm.Body
import TapeLang.Wasm.Exec
import TapeLang.Wasm.Host
import TapeLang.Wasm.Instr
import TapeLang.Wasm.Load
import TapeLang.Wasm.Memory
import TapeLang.Wasm.Name
import TapeLang.Wasm.Section
import TapeLang.Yaml.Node
import TapeLang.Yaml.Node.Parse
import TapeLang.Yaml.Problem
import TapeLang.Yaml.Source
import TapeLang.Yaml.Timestamp
import TapeLang.Yaml.Token
import TapeLang.Yaml.Token.Property
import TapeLang.Yaml.Token.Scalar
import TapeLang.Yaml.Token.Scan
import TapeLang.Yaml.Value
import TapeLang.Proofs.Settle
import TapeLang.Proofs.Sections
import TapeLang.Proofs.Accept
import TapeLang.Proofs.Walk
import TapeLang.Proofs.Normal
import TapeLang.Proofs.Layers
import TapeLang.Proofs.Ending
import TapeLang.Proofs.Validity
import TapeLang.Proofs.Leb128.Words
import TapeLang.Proofs.Budget
import TapeLang.Proofs.CSource
import TapeLang.Proofs.Flags
import TapeLang.Proofs.Files
import TapeLang.Proofs.Command
import TapeLang.Proofs.Pages
import TapeLang.Proofs.Passes
import TapeLang.Proofs.Body
import TapeLang.Proofs.Text
