import NeuronOS.Shared.CString
import NeuronOS.Shared.Binary32
import NeuronOS.Shared.Binary64
import NeuronOS.Shared.Json
import NeuronOS.Hal.Packing
import NeuronOS.Hal.Kernels
import NeuronOS.Hal.Requantize
import NeuronOS.Registry.ToolRegistry
import NeuronOS.Registry.Prompt
import NeuronOS.Registry.Tools
import NeuronOS.Registry.ToolOutput
import NeuronOS.Registry.Grammar
import NeuronOS.Registry.ToolArguments
import NeuronOS.Models.Score
import NeuronOS.Models.Hardware
import NeuronOS.Models.FileSystem
import NeuronOS.Models.Scan
import NeuronOS.Models.Select
import NeuronOS.Models.Walk
import NeuronOS.Models.Reorder
import NeuronOS.Models.Tree
import NeuronOS.Registry.ToolRun
import NeuronOS.Installer.SelectModel
import NeuronOS.Installer.Runtime
import NeuronOS.Cli.Main
import NeuronOS.Cli.Options
