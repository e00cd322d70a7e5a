import CLangExamples.Lib.CString
import CLangExamples.Lib.LinearProbing
import CLangExamples.Lib.Printf
import CLangExamples.Lib.Regex
import CLangExamples.Lib.Ring
import CLangExamples.Lib.Run
import CLangExamples.Lib.Strtoul
import CLangExamples.Lib.ThreeWay
import CLangExamples.Emulator.Cpu
import CLangExamples.Emulator.Disassembler
import CLangExamples.Emulator.Instr
import CLangExamples.Emulator.Machine
import CLangExamples.Emulator.Opcode
import CLangExamples.Emulator.Run
import CLangExamples.HashTable.Table
import CLangExamples.Aqls.Grammar
import CLangExamples.Aqls.Lexer
import CLangExamples.Aqls.Parser
import CLangExamples.Aqls.Token
import CLangExamples.Aqls.TokenSequence
import CLangExamples.Scgi.Connection
import CLangExamples.Scgi.Mem
import CLangExamples.Scgi.Parser
import CLangExamples.Scgi.Request
import CLangExamples.Http.DynamicArray
import CLangExamples.Http.Headers
import CLangExamples.Http.Scanner
import CLangExamples.Http.Server
import CLangExamples.Lemmas.AqlsLexer
import CLangExamples.Lemmas.AqlsParser
import CLangExamples.Lemmas.Decode
import CLangExamples.Lemmas.Exec
import CLangExamples.Lemmas.HashTable
import CLangExamples.Lemmas.ScgiParser
import CLangExamples.Lemmas.Step
import CLangExamples.Lemmas.StringView
import CLangExamples.Theorems.AqlsLexer
import CLangExamples.Theorems.AqlsParser
import CLangExamples.Theorems.CallStack
import CLangExamples.Theorems.Disassembly
import CLangExamples.Theorems.DynamicArray
import CLangExamples.Theorems.FixedBufferAllocator
import CLangExamples.Theorems.Frame
import CLangExamples.Theorems.HashTable
import CLangExamples.Theorems.HttpHeaders
import CLangExamples.Theorems.HttpServer
import CLangExamples.Theorems.MemoryBounds
import CLangExamples.Theorems.Scanner
import CLangExamples.Theorems.ScgiConnection
import CLangExamples.Theorems.ScgiParser
import CLangExamples.Theorems.Timer
import CLangExamples.Lemmas.Display
import CLangExamples.Theorems.Display
import CLangExamples.Theorems.Arithmetic
import CLangExamples.Theorems.Keyboard
import CLangExamples.Theorems.RegisterSave
import CLangExamples.Emulator.MachineDisassemble
import CLangExamples.Theorems.Listing
import CLangExamples.Theorems.FailedGrowth
import CLangExamples.Scgi.Response
import CLangExamples.Theorems.ScgiBounds
import CLangExamples.Theorems.ScgiResponse
import CLangExamples.Lib.Simulation
import CLangExamples.Theorems.TokenQueue
import CLangExamples.Aqls.Location
import CLangExamples.Theorems.Location
import CLangExamples.Theorems.EndOfInput
import CLangExamples.Theorems.TokenGrammar
import CLangExamples.Scgi.BufferedReader
import CLangExamples.Theorems.ErrorLocation
import CLangExamples.Theorems.BufferedReader
import CLangExamples.Emulator.Config
import CLangExamples.Theorems.ClockSpeed
import CLangExamples.Http.Config
import CLangExamples.Theorems.HttpConfig
import CLangExamples.Http.Stopwatch
import CLangExamples.Theorems.Stopwatch
import CLangExamples.Deferred.Defer
import CLangExamples.Theorems.Defer
import CLangExamples.Theorems.StringView
import CLangExamples.Theorems.Subroutine
import CLangExamples.Theorems.Noninterference
import CLangExamples.Theorems.Noninterference
import CLangExamples.Theorems.Subroutine
import CLangExamples.Lemmas.Footprint
import CLangExamples.Theorems.ListedProgram
import CLangExamples.Scgi.Server
import CLangExamples.Theorems.Digits
import CLangExamples.Theorems.ScgiServer
import CLangExamples.Theorems.SourceText
import CLangExamples.HashTable.Memory
import CLangExamples.Theorems.HashTableMemory
import CLangExamples.Curl.Body
import CLangExamples.Theorems.CurlBody
import CLangExamples.Theorems.ZlibUncompress
import CLangExamples.Lib.Merge
import CLangExamples.Pthreads.Threads
import CLangExamples.Theorems.Threads
import CLangExamples.Deferred.Main
import CLangExamples.Theorems.DeferMain
import CLangExamples.Emulator.Session
import CLangExamples.Theorems.Session
import CLangExamples.Emulator.Logger
import CLangExamples.Emulator.Main
import CLangExamples.Theorems.Logger
import CLangExamples.Theorems.EmulatorMain
import CLangExamples.Http.Main
import CLangExamples.Theorems.HttpMain
import CLangExamples.Http.Request
import CLangExamples.Theorems.HttpRequest
import CLangExamples.Aqls.Report
