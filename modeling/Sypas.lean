import Sypas.Lib.State
import Sypas.Lib.Word
import Sypas.Lib.Memory
import Sypas.Lib.Bitmap
import Sypas.Lib.StableSort
import Sypas.Lib.Extent
import Sypas.BootProto
import Sypas.Loader.Arith
import Sypas.Loader.Firmware
import Sypas.Loader.Reloc
import Sypas.Loader.RelocResult
import Sypas.Loader.Elf
import Sypas.Loader.ElfFormat
import Sypas.Loader.ElfAccept
import Sypas.Loader.ElfBounds
import Sypas.Loader.MemoryMap
import Sypas.Loader.DescriptorSort
import Sypas.Loader.Ownership
import Sypas.Loader.Split
import Sypas.Loader.Translate
import Sypas.Loader.MapCorrect
import Sypas.Loader.MapAccept
import Sypas.Loader.MapBuffers
import Sypas.Loader.KernelLoad
import Sypas.Loader.ExitBoot
import Sypas.Loader.Unreachable
import Sypas.Kernel.Pmm
import Sypas.Kernel.BootMap
import Sypas.Kernel.PmmInit
import Sypas.Kernel.FreeSet
import Sypas.Kernel.PmmAlloc
import Sypas.Kernel.PmmRuns
import Sypas.Kernel.PmmBoot
import Sypas.Kernel.PmmSelftest
import Sypas.Handoff
import Sypas.Lib.Raster
import Sypas.Kernel.Font8x8
import Sypas.Kernel.Fbcon
import Sypas.Kernel.FbconPixels
import Sypas.Lib.Terminal
import Sypas.Kernel.FbconRefine
import Sypas.Kernel.FbconBounds
import Sypas.Lib.Bytes
import Sypas.Lib.Chain
import Sypas.Media.FatLayout
import Sypas.Media.FatTree
import Sypas.Media.Mkfat
import Sypas.Media.FatTraversal
import Sypas.Media.FatRender
import Sypas.Media.FatVolume
import Sypas.Lib.Checksum
import Sypas.Loader.Acpi
import Sypas.Lib.Positional
import Sypas.Kernel.Kprintf
import Sypas.Kernel.KprintfNumber
import Sypas.Kernel.KprintfFormat
import Sypas.Kernel.KprintfPrintf
import Sypas.Lib.Pic8259
import Sypas.Kernel.Interrupts
import Sypas.Media.Fat16Files
import Sypas.Media.FatReadBack
import Sypas.Media.FatSlots
import Sypas.Media.Fat16RoundTrip
import Sypas.Media.FatSpelling
import Sypas.Media.FatResolve
import Sypas.Lib.Interaction
import Sypas.Lib.Layout
import Sypas.BootInfo
import Sypas.Loader.Services
import Sypas.Loader.EfiMain
import Sypas.Loader.EfiMainRules
import Sypas.Loader.EfiMainRuns
import Sypas.Loader.EfiMainInfo
import Sypas.Loader.EfiMainHandoff
import Sypas.Loader.EfiMainSafe
import Sypas.Loader.EfiMainMay
import Sypas.Boot
import Sypas.Lib.X86
import Sypas.Lib.X86Stack
import Sypas.Kernel.Gdt
import Sypas.Kernel.Idt
import Sypas.Kernel.IsrEntry
import Sypas.Kernel.Entry
import Sypas.Kernel.Board
import Sypas.Kernel.Console
import Sypas.Kernel.Exceptions
import Sypas.Kernel.Tables
import Sypas.Kernel.InterruptTests
import Sypas.Kernel.BootCheck
